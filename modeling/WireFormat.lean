import WireFormat.CopyReply
import WireFormat.Cursor
import WireFormat.Entry.Grammar
import WireFormat.Frame
import WireFormat.Limits.OfSetting
import WireFormat.Proofs.CopyReply.Beginning
import WireFormat.Proofs.CopyReply.Captured
import WireFormat.Proofs.CopyReply.Clause
import WireFormat.Proofs.CopyReply.Concatenation
import WireFormat.Proofs.CopyReply.CutOff
import WireFormat.Proofs.CopyReply.Description
import WireFormat.Proofs.CopyReply.Field
import WireFormat.Proofs.CopyReply.Log
import WireFormat.Proofs.CopyReply.Normal
import WireFormat.Proofs.CopyReply.Registers
import WireFormat.Proofs.CopyReply.Relayed
import WireFormat.Proofs.CopyReply.RoundTrip
import WireFormat.Proofs.Cursor.Calls
import WireFormat.Proofs.Cursor.Indexed
import WireFormat.Proofs.Entry.Nesting
import WireFormat.Proofs.Entry.PrefixCode
import WireFormat.Proofs.Entry.WellFormed
import WireFormat.Proofs.Frame
import WireFormat.Proofs.Incremental
import WireFormat.Proofs.Item.ReadBack
import WireFormat.Proofs.Items
import WireFormat.Proofs.Key.Tags
import WireFormat.Proofs.Message.InPlace
import WireFormat.Proofs.Message.Limits
import WireFormat.Proofs.Message.PassThrough
import WireFormat.Proofs.Skip.Stack
import WireFormat.Proofs.Text.Explained
import WireFormat.Proofs.Varint
import WireFormat.Proofs.Varint.Exact
import WireFormat.Proofs.Varint.Words
import WireFormat.Proofs.Writer.History
import WireFormat.Proofs.Writer.Positioned
import WireFormat.Proofs.Written
import WireFormat.Relay
import WireFormat.Skip.Scan

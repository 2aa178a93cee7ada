import DensoRobot.Lib.Words
import DensoRobot.Lib.Bytes
import DensoRobot.Common.Hresult
import DensoRobot.Common.Variant
import DensoRobot.Bcap.Packet
import DensoRobot.Bcap.Encode
import DensoRobot.Bcap.Decode
import DensoRobot.Bcap.Send
import DensoRobot.Bcap.Receiver
import DensoRobot.Bcap.Recv
import DensoRobot.Bcap.Transport
import DensoRobot.Bcap.Wire
import DensoRobot.Bcap.Extent
import DensoRobot.Bcap.Theorems.Encode
import DensoRobot.Bcap.Theorems.Decode
import DensoRobot.Bcap.Theorems.RoundTrip
import DensoRobot.Bcap.Theorems.Deliverable
import DensoRobot.Bcap.Form
import DensoRobot.Bcap.Theorems.Sizes
import DensoRobot.Bcap.Theorems.Extent
import DensoRobot.Bcap.Theorems.Safety
import DensoRobot.Bcap.Theorems.CleanUp
import DensoRobot.Bcap.Theorems.Alike
import DensoRobot.Bcap.Theorems.Spends
import DensoRobot.Bcap.Theorems.Reencode
import DensoRobot.Bcap.Theorems.Reception
import DensoRobot.Bcap.Theorems.Header
import DensoRobot.Bcap.Theorems.Tcp
import DensoRobot.Lib.Fuel
import DensoRobot.Lib.Ints
import DensoRobot.Common.Libc
import DensoRobot.Common.Copy
import DensoRobot.Common.Change
import DensoRobot.Common.Theorems.Copy
import DensoRobot.Common.Theorems.Integers
import DensoRobot.Common.Theorems.Numerals
import DensoRobot.Lib.Region
import DensoRobot.Common.ChangeVar
import DensoRobot.Common.Theorems.Copied
import DensoRobot.Common.Theorems.Alike
import DensoRobot.Common.Theorems.Elements
import DensoRobot.Common.Theorems.Slots
import DensoRobot.Bcap.Theorems.Finish
import DensoRobot.Bcap.Theorems.Framing
import DensoRobot.Bcap.Theorems.Com
import DensoRobot.Bcap.Theorems.Rejected
import DensoRobot.Bcap.Theorems.Resync
import DensoRobot.Bcap.Client
import DensoRobot.Bcap.Theorems.Reply
import DensoRobot.Lib.Run
import DensoRobot.Lib.Links
import DensoRobot.Common.Clock
import DensoRobot.Common.Memory
import DensoRobot.Bcap.Relation
import DensoRobot.Bcap.Theorems.Receiver
import DensoRobot.Bcap.Theorems.Relation
import DensoRobot.Bcap.Theorems.Clients
import DensoRobot.Bcap.Theorems.Connection
import DensoRobot.Bcap.Theorems.AddChild
import DensoRobot.Bcap.ObjectVector
import DensoRobot.Bcap.Theorems.ObjectVector
import DensoRobot.Lib.Crc
import DensoRobot.Lib.Cycle
import DensoRobot.Bcap.Attempts
import DensoRobot.Bcap.Retry
import DensoRobot.Bcap.Exchange
import DensoRobot.Bcap.Theorems.Attempts
import DensoRobot.Bcap.Theorems.Exchange
import DensoRobot.Bcap.Theorems.Retry
import DensoRobot.Bcap.Theorems.Crc
import DensoRobot.Robot.Mode
import DensoRobot.Robot.Motion
import DensoRobot.Robot.Theorems.Mode
import DensoRobot.Robot.Theorems.Motion
import DensoRobot.Robot.Theorems.Feedback
import DensoRobot.Lib.Stores
import DensoRobot.Robot.SlaveMove
import DensoRobot.Robot.Theorems.Answer
import DensoRobot.Robot.SendParameter
import DensoRobot.Robot.Theorems.SendParameter
import DensoRobot.Robot.Control
import DensoRobot.Robot.Theorems.Control
import DensoRobot.Robot.Variable
import DensoRobot.Robot.Theorems.Variable
import DensoRobot.Robotalk.Packet
import DensoRobot.Robotalk.Recv
import DensoRobot.Robotalk.Theorems.Frame
import DensoRobot.Robotalk.Theorems.Line
import DensoRobot.Robotalk.Theorems.Turn
import DensoRobot.Robotalk.Theorems.Reports
import DensoRobot.Robotalk.Draw
import DensoRobot.Robotalk.Theorems.Records
import DensoRobot.Robotalk.Theorems.Draw
import DensoRobot.Robotalk.Theorems.Verified
import DensoRobot.Robotalk.Theorems.Delivery
import DensoRobot.Robotalk.Pendant
import DensoRobot.Lib.Fields
import DensoRobot.Device.ConnParam
import DensoRobot.Device.Theorems.ConnParam
import DensoRobot.Lib.Ledger
import DensoRobot.Service.FuncId
import DensoRobot.Service.ExecFunction
import DensoRobot.Service.Theorems.Arguments
import DensoRobot.Service.Theorems.Handles
import DensoRobot.Common.OptionValue
import DensoRobot.Lib.Trim
import DensoRobot.Common.Theorems.OptionList
import DensoRobot.Common.Theorems.OptionScan
import DensoRobot.Common.Theorems.OptionValue
import DensoRobot.Rac.RacString
import DensoRobot.Rac.RacVariant
import DensoRobot.Lib.Brackets
import DensoRobot.Rac.Theorems.Split
import DensoRobot.Rac.Theorems.Convert
import DensoRobot.Rac.Theorems.Numbers
import DensoRobot.Rac.Theorems.Text
import DensoRobot.Rac.Theorems.RoundTrip
import DensoRobot.Lib.Refine
import DensoRobot.Common.Event
import DensoRobot.Bcap.Accepting
import DensoRobot.Bcap.Theorems.Accepting
import DensoRobot.Bcap.Handshake
import DensoRobot.Bcap.Theorems.Handshake
import DensoRobot.Bcap.Execution
import DensoRobot.Bcap.Channel
import DensoRobot.Bcap.Theorems.Channel
import DensoRobot.Bcap.Theorems.Traffic
import DensoRobot.Bcap.Invoke
import DensoRobot.Bcap.Theorems.Answers
import DensoRobot.Bcap.Api
import DensoRobot.Bcap.Calls
import DensoRobot.Bcap.Theorems.Api
import DensoRobot.Service.Client
import DensoRobot.Service.Theorems.Client
import DensoRobot.Theorems.Timeouts

import DensoRobot.Bcap.Client
import DensoRobot.Bcap.Theorems.Com

open HRESULT Bytes

namespace Bcap

section

variable {host : Host}

-- A packet that reaches the client.
structure Reply where
  bytes  : List UInt8
  framed : wellFramed bytes
  length : bytes.length < 4294967296

namespace Reply

def serial (r : Reply) : Nat :=
  ofLe (r.bytes.window bcapPosSerial 2)

def id (r : Reply) : Int :=
  i32 (ofLe (r.bytes.window bcapPosId 4))

def argc (r : Reply) : Nat :=
  announced r.bytes

-- The value that a packet carries.
def arg (host : Host) (r : Reply) : Option Value :=
  (argValues host r.bytes).head?

-- The packet ends the attempt with the given serial number.
def Answers (serial : Nat) (r : Reply) : Prop :=
  serial = r.serial ∧ r.id ≠ sExecuting

instance (serial : Nat) (r : Reply) : Decidable (r.Answers serial) :=
  inferInstanceAs (Decidable (_ ∧ _))

-- There is no more than one argument, and it can be read.
structure Readable (host : Host) (r : Reply) : Prop where
  argc_le  : r.argc ≤ 1
  complete : Complete host r.bytes

end Reply

-- The content of the first argument of a packet, unless nothing was written there yet.
def BcapPacket.content (q : BcapPacket) : Option Value :=
  (q.args.bind (·.slots.head?.join)).map Variant.value

-- The packet that `invoke_function` provides for the response.
def Ready (q : BcapPacket) : Prop :=
  ∃ args, q.args = some args ∧ 0 < args.slots.length

variable {dev : Device σ} {fuel addr serial rounds : Nat} {r last : Reply} {skipped : List Reply}
variable {fs : List (List UInt8)} {q : BcapPacket} {next : Nat} {s : σ}

end

end Bcap

import DensoRobot.Lib.Words

-- An `HRESULT` is a signed 32 bit number, which is negative iff it reports a failure.
abbrev HRESULT := Int

namespace HRESULT

abbrev Succeeded (hr : HRESULT) : Prop :=
  0 ≤ hr

abbrev Failed (hr : HRESULT) : Prop :=
  hr < 0

def sOk            : HRESULT := 0
def sFalse         : HRESULT := 1
def sExecuting     : HRESULT := i32 0x00000900
def eTimeout       : HRESULT := i32 0x80000900
def eMaxObject     : HRESULT := i32 0x80000905
def eMaxConnect    : HRESULT := i32 0x8000090B
def eTooMuchData   : HRESULT := i32 0x80000909
def eNotImpl       : HRESULT := i32 0x80004001
def eFail          : HRESULT := i32 0x80004005
def eInvalidPacket : HRESULT := i32 0x80010000
def eTypeMismatch  : HRESULT := i32 0x80020005
def eBadVarType    : HRESULT := i32 0x80020008
def eOverflow      : HRESULT := i32 0x8002000A
def eBadIndex      : HRESULT := i32 0x8002000B
def eAccessDenied  : HRESULT := i32 0x80070005
def eHandle        : HRESULT := i32 0x80070006
def eOutOfMemory   : HRESULT := i32 0x8007000E
def eInvalidArg    : HRESULT := i32 0x80070057
-- `OSERR2HRESULT(ERROR_BUSY)`
def eBusyProc      : HRESULT := i32 0x809100AA

@[simp] theorem not_failed_sOk : ¬Failed sOk := by decide
@[simp] theorem succeeded_sOk : Succeeded sOk := by decide
@[simp] theorem failed_eTimeout : Failed eTimeout := by decide
@[simp] theorem failed_eFail : Failed eFail := by decide
@[simp] theorem failed_eInvalidPacket : Failed eInvalidPacket := by decide
@[simp] theorem failed_eOutOfMemory : Failed eOutOfMemory := by decide
@[simp] theorem failed_eInvalidArg : Failed eInvalidArg := by decide
@[simp] theorem failed_eAccessDenied : Failed eAccessDenied := by decide
@[simp] theorem failed_eBadVarType : Failed eBadVarType := by decide
@[simp] theorem failed_eBadIndex : Failed eBadIndex := by decide

@[simp]
theorem not_failed_iff {hr : HRESULT} : ¬Failed hr ↔ Succeeded hr :=
  Int.not_lt

theorem Succeeded.not_failed {hr : HRESULT} : Succeeded hr → ¬hr < 0 :=
  Int.not_lt.mpr

theorem Failed.not_succeeded {hr : HRESULT} : Failed hr → ¬0 ≤ hr :=
  Int.not_le.mpr

theorem Failed.ne_sOk {hr : HRESULT} (h : Failed hr) : hr ≠ sOk := by
  rintro rfl
  exact not_failed_sOk h

end HRESULT

-- The ways in which the C code leaves what its language defines: an access outside of the memory
-- that it was given, or to memory that nothing was written to.
-- `fuel` is not an error of the code but stands for a loop or a nesting that goes beyond the bound
-- which a function of this development was called with.
inductive Fault
  | read
  | write
  | uninit
  | fuel
  deriving DecidableEq, Repr

abbrev Exec := Except Fault

namespace Exec

variable {a : α} {e : Fault} {f : α → Exec β}

@[simp] theorem pure_eq : (pure a : Exec α) = .ok a := rfl
@[simp] theorem throw_eq : (throw e : Exec α) = .error e := rfl
@[simp] theorem ok_bind : ((.ok a : Exec α) >>= f) = f a := rfl
@[simp] theorem error_bind : ((.error e : Exec α) >>= f) = .error e := rfl

end Exec

theorem ok_of_bind {r : Exec α} {f : α → Exec β} {b : β} (h : (r >>= f) = .ok b) :
    ∃ a, r = .ok a ∧ f a = .ok b := by
  cases r
  case error => simp at h
  case ok a  => exact ⟨a, rfl, h⟩

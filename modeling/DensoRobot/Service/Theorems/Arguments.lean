import DensoRobot.Service.ExecFunction

open HRESULT Bcap

namespace BcapService

-- Whether a member of the union is the one that holds the value of a variant.
-- The integers of 32 bits have the same representation.
def Member.Reads : Member → Variant → Prop
  | ulVal,   v => v.vt = VarType.word false .i4 ∨ v.vt = VarType.word false .ui4
  | lVal,    v => v.vt = VarType.word false .i4 ∨ v.vt = VarType.word false .ui4
  | fltVal,  v => v.vt = VarType.word false .r4
  | bstrVal, v => v.vt = VarType.word false .bstr
  | self,    _ => True

-- All arguments that are read are read as what they are.
def Typed (branch : Branch) (args : List Variant) : Prop :=
  ∀ p ∈ branch.params.zip args, p.1.Reads p.2

-- The client gets nothing but arguments that were read as what they are, and arguments that are not
-- there or of another type make a call fail without reaching it.
structure Checked (funcId : Int) (args : List Variant) (ret : HRESULT × Option Invocation) :
    Prop where
  passed  : ∀ call, ret.2 = some call → ∀ p ∈ call.args, p.1.Reads p.2
  refused : ∀ branch, branches.lookup funcId = some branch →
    args.length < branch.params.length ∨ ¬Typed branch args → ret.1.Failed ∧ ret.2 = none

theorem execFunction_unknown {s : BcapService} (h : branches.lookup funcId = none) :
    (execFunction address funcId args reply s).1 = (eInvalidArg, none) := by
  simp only [execFunction, dispatch, h]

theorem execFunction_missing {s : BcapService} (h : branches.lookup funcId = some branch)
    (hm : args.length < branch.params.length) :
    (execFunction address funcId args reply s).1 = (eBadIndex, none) := by
  simp only [execFunction, dispatch, h, if_pos hm]

theorem execFunction_called {s : BcapService} (h : branches.lookup funcId = some branch)
    (hm : ¬args.length < branch.params.length) :
    (execFunction address funcId args reply s).1 =
      (reply.hr, some ⟨funcId, branch.params.zip args⟩) := by
  simp only [execFunction, dispatch, h, if_neg hm]

-- The arguments of a call are checked iff those that the function reads are missing or typed.
theorem execFunction_checked_iff (address : Nat → Nat) (funcId : Int) (args : List Variant)
    (reply : Reply) (s : BcapService) :
    Checked funcId args (execFunction address funcId args reply s).1 ↔
      ∀ branch, branches.lookup funcId = some branch → branch.params.length ≤ args.length →
        Typed branch args := by
  constructor
  case mp =>
    intro hc branch hb hl
    exact hc.passed _ (by rw [execFunction_called hb (Nat.not_lt.mpr hl)])
  case mpr =>
    intro ht
    constructor
    case passed =>
      intro call hcall
      cases hb : branches.lookup funcId
      case none => simp [execFunction_unknown hb] at hcall
      case some branch =>
        by_cases hm : args.length < branch.params.length
        case pos => simp [execFunction_missing hb hm] at hcall
        case neg =>
          rw [execFunction_called hb hm] at hcall
          cases hcall
          exact ht branch hb (Nat.not_lt.mp hm)
    case refused =>
      intro branch hb hw
      by_cases hm : args.length < branch.params.length
      case pos => simp [execFunction_missing hb hm]
      case neg =>
        have hty := ht branch hb (Nat.not_lt.mp hm)
        exact absurd hty (hw.resolve_left hm)

-- The integer that is given for the name of a robot goes to the client as a string.
theorem getrobot_not_checked :
    ¬∀ address funcId args reply (s : BcapService),
      Checked funcId args (execFunction address funcId args reply s).1 := by
  intro h
  have hc := h id idControllerGetrobot [.scalar .ui4 1, .scalar .i4 7, .bstr none] ⟨sOk, 2⟩ ⟨1, []⟩
  have hr := hc.passed _ rfl (.bstrVal, .scalar .i4 7) (List.mem_cons_of_mem _ List.mem_cons_self)
  exact absurd (show VarType.word false .i4 = VarType.word false .bstr from hr) (by decide)

end BcapService

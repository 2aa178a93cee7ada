import DensoRobot.Bcap.Calls
import DensoRobot.Bcap.Form
import DensoRobot.Bcap.Transport
import DensoRobot.Bcap.Theorems.Answers

open HRESULT Device

namespace Bcap.Api

namespace Param

def vt : Param → VarType
  | uint32 | int32 => .i4
  | float          => .r4
  | bstr           => .bstr
  | variant        => .variant

-- The number of a type in a format.
def text : Param → List Nat
  | uint32 | int32 => [51]
  | float          => [52]
  | bstr           => [56]
  | variant        => [49, 50]

theorem atoi_text (p : Param) : atoi p.text = p.vt.code := by
  cases p <;> decide

theorem vaArg_of_takes {p : Param} {arg : VaArg} (h : p.Takes arg) :
    ∃ read, vaArg (atoi p.text) = some read ∧ read arg = .ok arg.toVariant := by
  rw [atoi_text]
  cases p <;> cases arg <;> first | exact h.elim | exact ⟨_, rfl, rfl⟩

end Param

-- The part of a format for the parameters.
def formatOf : List Param → List Nat
  | []           => []
  | [p]          => p.text
  | p :: q :: ps => p.text ++ 44 :: formatOf (q :: ps)

variable {p : Param} {ps : List Param}

theorem formatOf_ne_nil : formatOf (p :: ps) ≠ [] := by
  cases ps <;> cases p <;> simp [formatOf, Param.text]

theorem takeWhile_formatOf : (formatOf (p :: ps)).takeWhile (· ≠ 44) = p.text := by
  cases ps <;> cases p <;> simp [formatOf, Param.text]

theorem dropWhile_formatOf : ((formatOf (p :: ps)).dropWhile (· ≠ 44)).tail = formatOf ps := by
  cases ps <;> cases p <;> simp [formatOf, Param.text]

-- The arguments are read as what they were passed as, and none but them.
theorem setArgs_formatOf {args : List VaArg} (h : List.Forall₂ Param.Takes ps args)
    (list : List VaArg) (i : Nat) : setArgs (i + ps.length) (args ++ list) (formatOf ps) i =
      .ok (some (args.map VaArg.toVariant, list)) := by
  induction h generalizing i
  case nil =>
    rw [setArgs]
    simp [formatOf]
  case cons p arg ps args h _ ih =>
    obtain ⟨read, hread, hval⟩ := Param.vaArg_of_takes h
    have ih := ih (i + 1)
    rw [Nat.add_right_comm, Nat.add_assoc] at ih
    rw [setArgs, if_neg (fun h => formatOf_ne_nil h.1), takeWhile_formatOf, hread]
    simp only [List.length_cons, List.cons_append, dropWhile_formatOf]
    rw [if_neg (by omega), hval, Exec.ok_bind, ih]
    rfl

namespace Function

-- The format is that of the parameters.
structure Formatted (f : Function) : Prop where
  argc   : f.argc = f.sent.length
  args   : f.format.takeWhile (· ≠ 58) = formatOf f.sent
  result : chRet f.format = f.result.map Param.text

theorem formatted_iff (f : Function) : f.Formatted ↔ f.argc = f.sent.length ∧
    f.format.takeWhile (· ≠ 58) = formatOf f.sent ∧ chRet f.format = f.result.map Param.text :=
  ⟨fun h => ⟨h.argc, h.args, h.result⟩, fun h => ⟨h.1, h.2.1, h.2.2⟩⟩

instance (f : Function) : Decidable f.Formatted :=
  decidable_of_iff' _ f.formatted_iff

theorem bcapFunctions_formatted : ∀ f ∈ bcapFunctions, f.Formatted := by
  decide +kernel

end Function

section

variable {host : Host} {hr : HRESULT} {next : Nat} {v : Variant}

theorem assign_int (hvt : v.vt ≠ VarType.i4.code) (val : Nat) :
    assign host next (.int val) (some v) = .ok (.int val) := by
  rcases v with ⟨vt, _⟩ | _
  case scalar => cases vt <;> first | rfl | exact absurd rfl hvt
  all_goals rfl

theorem assign_bstr (hvt : v.vt ≠ VarType.bstr.code) (val : Option Bstr) :
    assign host next (.bstr val) (some v) = .ok (.bstr val) := by
  cases v
  case bstr => exact absurd rfl hvt
  all_goals rfl

-- A variable other than a `VARIANT` is assigned if the call succeeded, which does nothing if the
-- response carries a value of another type.
theorem storeResult_typed {vt : VarType} (hvariant : (vt.code : Int) ≠ VarType.variant.code)
    {target : Var} {assigned : Exec Var} (hother : v.vt ≠ vt.code → assigned = .ok target)
    (hsame : v.vt = vt.code → ¬Failed hr →
      storeResult host hr vt.code (some v) next target = assigned) :
    storeResult host hr vt.code (some v) next target =
      if Failed hr then .ok target else assigned := by
  by_cases hf : Failed hr
  case pos =>
    unfold storeResult
    rw [if_neg hvariant, if_pos hf, if_pos hf]
    rfl
  case neg =>
    rw [if_neg hf]
    by_cases hvt : v.vt = vt.code
    case pos => exact hsame hvt hf
    case neg =>
      have hne : (vt.code : Int) ≠ v.vt := fun h => hvt (Int.ofNat.inj h).symm
      unfold storeResult
      rw [if_neg hvariant, if_neg hf, hother hvt]
      exact if_pos hne

theorem storeResult_int (hv : v.Tagged) (val : Nat) :
    storeResult host hr VarType.i4.code (some v) next (.int val) =
      receive host hr (some v) next (.int val) := by
  refine storeResult_typed (by decide) (assign_int · val) fun hvt hf => ?_
  obtain ⟨lVal, rfl⟩ := hv.i4 hvt
  unfold storeResult
  rw [if_neg (by decide), if_neg hf]
  exact if_neg (not_not.mpr rfl)

theorem storeResult_bstr (hv : v.Tagged) (val : Option Bstr) :
    storeResult host hr VarType.bstr.code (some v) next (.bstr val) =
      receive host hr (some v) next (.bstr val) := by
  refine storeResult_typed (by decide) (assign_bstr · val) fun hvt hf => ?_
  obtain ⟨bstrVal, rfl⟩ := hv.bstr hvt
  unfold storeResult
  rw [if_neg (by decide), if_neg hf]
  exact if_neg (not_not.mpr rfl)

-- A pointer is written through as what it points to.
theorem storeResult_eq {p : Param} {target : Var} (hp : p.PointsTo target) (hv : v.Tagged) :
    storeResult host hr p.vt.code (some v) next target =
      receive host hr (some v) next target := by
  cases p <;> cases target <;> first
    | exact hp.elim
    | exact storeResult_int hv _
    | exact storeResult_bstr hv _
    | rfl

end

section

variable {host : Host} {fuel : Nat} {port : Port σ} {next nextRet : Nat} {client : Client}
variable {state : σ}

-- The pointer for the result, if there is one, points to a variable of its type.
def Function.Returns (f : Function) (target : Option Var) : Prop :=
  ∀ v ∈ target, ∃ p ∈ f.result, p.PointsTo v

-- The type of the result, which is 0 if there is none.
def Function.vt (f : Function) : Int :=
  f.result.elim 0 fun p => p.vt.code

-- The pointer behind the arguments, if the function has a result.
def Function.pointerArgs (f : Function) (target : Option Var) : List VaArg :=
  f.result.toList.map fun _ => .pointer target

theorem Function.Formatted.resultPointer_eq {f : Function} (hf : f.Formatted) {target : Option Var}
    (ht : f.Returns target) :
    resultPointer (chRet f.format) (f.pointerArgs target) = .ok (f.vt, target) := by
  rw [hf.result, pointerArgs, vt]
  rcases hr : f.result with _ | p
  case none =>
    have hnone : target = none := Option.eq_none_iff_forall_not_mem.mpr fun v hv => by
      obtain ⟨p, hp, _⟩ := ht v hv
      cases hr ▸ hp
    rw [hnone]
    rfl
  case some =>
    rw [Option.elim_some, ← p.atoi_text]
    rfl

theorem responseSlot_eq {f : Function} {target : Option Var} (ht : f.Returns target) :
    responseSlot f.vt target = .ok (slotFor target) := by
  rcases target with _ | v
  case none => rfl
  case some =>
    obtain ⟨p, hp, hv⟩ := ht v rfl
    rw [Function.vt, hp]
    cases p <;> cases v <;> first | exact hv.elim | rfl

theorem clearRet_eq {f : Function} {target : Option Var} (ht : f.Returns target)
    (slot : Option Variant) : clearRet f.vt target slot = release target slot := by
  rcases target with _ | v
  case none => cases slot <;> rfl
  case some =>
    obtain ⟨p, hp, hv⟩ := ht v rfl
    rw [Function.vt, hp]
    cases p <;> cases v <;> first | exact hv.elim | cases slot <;> rfl

theorem slotFor_answers {target : Option Var} (ht : ∀ slot, target ≠ some (.variant slot)) :
    BcapPacket.Answers ⟨0, 0, 0, 1, some ⟨0, [slotFor target]⟩⟩ := by
  have hslot : slotFor target = some (.init false .empty) := by
    unfold slotFor
    split
    case h_1 slot => exact absurd rfl (ht slot)
    case h_2      => rfl
  exact ⟨.init false .empty, by rw [hslot]; rfl, .init 0 false⟩

-- A response is taken for what its type word says.
theorem storeResult_answer {f : Function} {packetRecv : BcapPacket} {target : Var}
    (ht : f.Returns (some target)) (hp : (∃ slot, target = .variant slot) ∨ packetRecv.Answers)
    (hr : HRESULT) : storeResult host hr f.vt packetRecv.firstSlot nextRet target =
      receive host hr packetRecv.firstSlot nextRet target := by
  obtain ⟨p, hp', hpoints⟩ := ht target rfl
  rw [Function.vt, hp']
  rcases hp with ⟨slot, rfl⟩ | ⟨v, hv, htag⟩
  · cases p <;> first | exact hpoints.elim | rfl
  · rw [hv]
    exact storeResult_eq hpoints htag

-- Whatever comes in, the variable is written to as what it is.
theorem storeResult_sendReceive {f : Function} {target : Option Var} (ht : f.Returns target)
    {packetSend : BcapPacket} {r : HRESULT × Client × BcapPacket × σ}
    (hr : sendReceive host fuel port client packetSend
      ⟨0, 0, 0, 1, some ⟨0, [slotFor target]⟩⟩ next state = .ok r) :
    target.mapM (storeResult host r.1 f.vt r.2.2.1.firstSlot nextRet) =
      target.mapM (receive host r.1 r.2.2.1.firstSlot nextRet) := by
  rcases target with _ | target
  case none => rfl
  case some =>
    have hp : (∃ slot, target = .variant slot) ∨ r.2.2.1.Answers := by
      by_cases h : ∃ slot, target = .variant slot
      case pos => exact .inl h
      case neg =>
        have hne : ∀ slot, some target ≠ some (.variant slot) :=
          fun slot hs => h ⟨slot, Option.some.inj hs⟩
        exact .inr (sendReceive_answers (slotFor_answers hne) hr)
    rw [Option.mapM_some, Option.mapM_some, storeResult_answer ht hp]

theorem invokeFunction_eq {f : Function} (hf : f.Formatted) {args : List VaArg}
    (hargs : List.Forall₂ Param.Takes f.sent args) {target : Option Var} (ht : f.Returns target) :
    (do
      let (hr, written, client, state) ← invokeFunction host fuel port client f.id f.argc f.format
        (args ++ f.pointerArgs target) next nextRet state
      return (hr, written.or target, client, state)) =
    request host fuel port client f.id (args.map VaArg.toVariant) target next nextRet state := by
  have hlen : f.argc = (args.map VaArg.toVariant).length := by
    rw [hf.argc, hargs.length_eq, List.length_map]
  have hset : setArgs f.argc (args ++ f.pointerArgs target) (f.format.takeWhile (· ≠ 58)) 0 =
      .ok (some (args.map VaArg.toVariant, f.pointerArgs target)) := by
    rw [hf.args, hf.argc, ← Nat.zero_add f.sent.length]
    exact setArgs_formatOf hargs _ 0
  rw [invokeFunction, request, ← hlen]
  generalize (if 0 < f.argc then host.alloc next else (some 0, next)) = allocated
  rcases allocated with ⟨_ | addr, next⟩
  case none => rfl
  case some =>
    simp only [hset, Exec.ok_bind, hf.resultPointer_eq ht, responseSlot_eq ht]
    cases hr : sendReceive host fuel port client
      (.ofArgs 0 0 f.id addr (args.map VaArg.toVariant))
      ⟨0, 0, 0, 1, some ⟨0, [slotFor target]⟩⟩ next state
    case error => rfl
    case ok r =>
      simp only [Exec.ok_bind, clearRet_eq ht, storeResult_sendReceive ht hr]
      rcases target with _ | target
      case none =>
        simp only [Option.mapM_none, Exec.pure_eq, Exec.ok_bind]
        cases release none r.2.2.1.firstSlot <;> rfl
      case some =>
        rw [Option.mapM_some]
        cases receive host r.1 r.2.2.1.firstSlot nextRet target
        case error => rfl
        case ok => cases release (some target) r.2.2.1.firstSlot <;> rfl

end

section

variable {host : Host} {fuel : Nat} {port : Port σ} {next nextRet : Nat}

-- A call without a result does not write to any variable.
theorem request_none (client : Client) (id : Int) (vs : List Variant) (state : σ) :
    (do
      let (hr, _, client, state) ← request host fuel port client id vs none next nextRet state
      return (hr, none, client, state)) =
    request host fuel port client id vs none next nextRet state := by
  rw [request]
  generalize (if 0 < vs.length then host.alloc next else (some 0, next)) = allocated
  rcases allocated with ⟨_ | addr, next⟩
  case none => rfl
  case some =>
    simp only [Option.mapM_none, Exec.pure_eq, Exec.ok_bind]
    cases sendReceive host fuel port client (.ofArgs 0 0 id addr vs)
      ⟨0, 0, 0, 1, some ⟨0, [slotFor none]⟩⟩ next state
    case error => rfl
    case ok r =>
      simp only [Exec.ok_bind]
      cases release none r.2.2.1.firstSlot <;> rfl

theorem invokeFunction_none {f : Function} (hf : f.Formatted) (hresult : f.result = none)
    {args : List VaArg} (hargs : List.Forall₂ Param.Takes f.sent args) (client : Client) (state : σ)
    (k : HRESULT → Client → σ → Exec α) :
    (do
      let (hr, _, client, state) ← invokeFunction host fuel port client f.id f.argc f.format args
        next nextRet state
      k hr client state) =
    (do
      let (hr, _, client, state) ← request host fuel port client f.id
        (args.map VaArg.toVariant) none next nextRet state
      k hr client state) := by
  have hlist : args ++ f.pointerArgs none = args := by
    rw [Function.pointerArgs, hresult]
    exact List.append_nil args
  rw [← invokeFunction_eq hf hargs (fun _ hv => by cases hv), hlist]
  cases invokeFunction host fuel port client f.id f.argc f.format args next nextRet state <;> rfl

theorem Function.run_eq {f : Function} (hf : f ∈ bcapFunctions) {args : List VaArg}
    {var : Option Var} (takes : List.Forall₂ Param.Takes f.params args)
    (pointsTo : ∀ v ∈ var, ∃ p ∈ f.pointer, p.PointsTo v) (client : Client) (state : σ) :
    f.run host fuel port args var next nextRet client state =
      f.perform host fuel port args var next nextRet client state := by
  have hf := bcapFunctions_formatted f hf
  cases f
  case calls =>
    have hvar : var = none := Option.eq_none_iff_forall_not_mem.mpr fun v hv => by
      obtain ⟨p, hp, _⟩ := pointsTo v hv
      cases hp
    subst hvar
    exact (invokeFunction_none hf rfl takes client state fun hr client state =>
      pure (hr, none, client, state)).trans (request_none ..)
  case gets => exact invokeFunction_eq hf takes pointsTo
  case creates =>
    cases var
    case none => rfl
    case some => exact invokeFunction_eq hf takes pointsTo
  case releases =>
    rcases var with _ | h | _ | _
    case none => rfl
    case some.int =>
      have hargs : List.Forall₂ Param.Takes [.uint32] [.int h] := .cons trivial .nil
      exact invokeFunction_none hf rfl hargs client state fun hr client state =>
        pure (hr, some <| Var.int <| if Failed hr then h else 0, client, state)
    all_goals
      obtain ⟨p, hp, hv⟩ := pointsTo _ rfl
      cases hp
      exact hv.elim

theorem runCalls_eq (cs : List Call) (hcs : ∀ c ∈ cs, c.function ∈ Function.bcapFunctions)
    (client : Client) (state : σ) : runCalls host fuel port cs client state =
      performCalls host fuel port cs client state := by
  induction cs generalizing client state
  case nil          => rfl
  case cons c cs ih =>
    have hc := List.forall_mem_cons.mp hcs
    have hrun (client : Client) (state : σ) :
        c.run host fuel port client state = c.perform host fuel port client state :=
      c.function.run_eq hc.1 c.takes c.pointsTo client state
    simp only [runCalls, performCalls, hrun, ih hc.2]

end

-- A connection on which two responses come in, the first of which carries the handle 7.
def handlePort : Port Tcp where
  toDevice   := tcpDevice fun _ => 64
  dnSend _ s := (sOk, s)

def handleResponses : Tcp where
  unread :=
    [1, 30, 0, 0, 0, 1, 0, 0, 0, 0, 0, 0, 0, 1, 0, 10, 0, 0, 0, 3, 0, 1, 0, 0, 0, 7, 0, 0, 0, 4,
    1, 16, 0, 0, 0, 2, 0, 0, 0, 0, 0, 0, 0, 0, 0, 4]
  peeked := 0
  calls  := 0

def handleCalls : List Call :=
  [{ function := .bCapControllerConnect
     args     := [.bstr none, .bstr none, .bstr none, .bstr none]
     var      := some (.int 0)
     next     := 0
     nextRet  := 0
     takes    := .cons trivial <| .cons trivial <| .cons trivial <| .cons trivial .nil
     pointsTo := by rintro _ ⟨⟩; exact ⟨_, rfl, trivial⟩ },
   { function := .bCapControllerDisconnect
     args     := []
     var      := some (.int 7)
     next     := 0
     nextRet  := 0
     takes    := .nil
     pointsTo := by rintro _ ⟨⟩; exact ⟨_, rfl, trivial⟩ }]

def handleOf : Var → Option Nat
  | .int h => some h
  | _      => none

-- The results of calls with the handles that they leave behind.
def handles (results : List (HRESULT × Option Var)) : List (HRESULT × Option Nat) :=
  results.map fun (hr, var) => (hr, var.bind handleOf)

theorem handleCalls_run :
    (runCalls ampleHost 4 handlePort handleCalls ⟨0, 1, 1⟩ handleResponses).toOption.map
      (fun r => handles r.1) = some [(sOk, some 7), (sOk, some 0)] := by
  rw [runCalls_eq handleCalls (by decide +kernel)]
  decide +kernel

end Bcap.Api

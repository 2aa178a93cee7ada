import DensoRobot.Bcap.Theorems.Api
import DensoRobot.Service.Client
import DensoRobot.Service.Theorems.Arguments
import DensoRobot.Service.Theorems.Handles

open HRESULT Bcap

namespace BcapService

def Member.param : Member → Api.Param
  | ulVal   => .uint32
  | lVal    => .int32
  | fltVal  => .float
  | bstrVal => .bstr
  | self    => .variant

-- The arguments are handed on as the types that the function declares.
theorem branches_sent : ∀ p ∈ branches,
    (functionOf p.1).map Api.Function.sent = some (p.2.params.map Member.param) := by
  decide +kernel

theorem branches_ids : ∀ p ∈ branches, p.1 ≠ idServiceStart ∧ p.1 ≠ idServiceStop := by
  decide +kernel

-- Only the functions that start and stop the service have no case in the `switch`.
theorem functions_lookup : ∀ f ∈ Api.Function.bcapFunctions,
    f.id = idServiceStart ∨ f.id = idServiceStop ∨ (branches.lookup f.id).isSome := by
  decide +kernel

theorem functions_result : ∀ f ∈ Api.Function.bcapFunctions, f.result ≠ some .float := by
  decide +kernel

theorem functionOf_spec {funcId : Int} {f : Api.Function} (h : functionOf funcId = some f) :
    f ∈ Api.Function.bcapFunctions ∧ f.id = funcId :=
  ⟨List.mem_of_find?_eq_some h,
    of_decide_eq_true (List.find?_some (p := fun f : Api.Function => decide (f.id = funcId)) h)⟩

section

variable {address : Nat → Nat}

theorem Member.read_typed {member : Member} {v : Variant} (h : member.Reads v) (ht : v.Tagged) :
    ∃ arg, member.read address v = .ok arg ∧ member.param.Takes arg ∧
      arg.toVariant = sentAs address member.param v := by
  cases member
  case ulVal  => exact ⟨.int (BcapService.ulVal address v), rfl, trivial, rfl⟩
  case lVal   => exact ⟨.int (BcapService.ulVal address v), rfl, trivial, rfl⟩
  case fltVal => exact ⟨.double (BcapService.ulVal address v), rfl, trivial, rfl⟩
  case self   => exact ⟨.variant v, rfl, trivial, rfl⟩
  case bstrVal =>
    obtain ⟨bstrVal, rfl⟩ := ht.bstr h
    exact ⟨.bstr bstrVal, rfl, trivial, rfl⟩

theorem mapM_read {params : List Member} {args : List Variant} (hl : params.length ≤ args.length)
    (hr : ∀ p ∈ params.zip args, p.1.Reads p.2) (ht : ∀ v ∈ args, v.Tagged) :
    ∃ passed, (params.zip args).mapM (fun p => p.1.read address p.2) = .ok passed ∧
      List.Forall₂ Api.Param.Takes (params.map Member.param) passed ∧
      passed.map VaArg.toVariant =
        List.zipWith (sentAs address) (params.map Member.param) args := by
  induction params generalizing args
  case nil => exact ⟨[], rfl, .nil, rfl⟩
  case cons member params ih =>
    rcases args with _ | ⟨v, args⟩
    case nil => contradiction
    case cons =>
      rw [List.zip_cons_cons] at hr ⊢
      obtain ⟨hmember, hrest⟩ := List.forall_mem_cons.mp hr
      obtain ⟨hv, hvs⟩ := List.forall_mem_cons.mp ht
      obtain ⟨arg, harg, htakes, hsent⟩ := Member.read_typed hmember hv
      obtain ⟨passed, hpassed, hall, hsents⟩ := ih (Nat.le_of_succ_le_succ hl) hrest hvs
      refine ⟨arg :: passed, ?_, .cons htakes hall, ?_⟩
      · rw [List.mapM_cons, harg, hpassed]
        rfl
      · rw [List.map_cons, List.map_cons, List.zipWith_cons_cons, hsent, hsents]

theorem retVar_pointsTo {p : Api.Param} (hp : p ≠ .float) : p.PointsTo (retVar p) := by
  cases p
  case float => exact absurd rfl hp
  all_goals trivial

end

section

variable {host : Host} {fuel : Nat} {port : Port σ} {address : Nat → Nat}

theorem run_bind {f : Api.Function} (hf : f ∈ Api.Function.bcapFunctions) {args : List VaArg}
    {var : Option Var} (takes : List.Forall₂ Api.Param.Takes f.params args)
    (pointsTo : ∀ v ∈ var, ∃ p ∈ f.pointer, p.PointsTo v) (next nextRet : Nat) (client : Client)
    (state : σ) (k : HRESULT × Option Var × Client × σ → Exec α) :
    (f.run host fuel port args var next nextRet client state >>= k) =
      (f.perform host fuel port args var next nextRet client state >>= k) :=
  congrArg (· >>= k) (Api.Function.run_eq hf takes pointsTo client state)

-- What follows the call of a function sees a request.
theorem Execution.call_eq (e : Execution) {f : Api.Function} (hf : f ∈ Api.Function.bcapFunctions)
    {passed : List VaArg} (takes : List.Forall₂ Api.Param.Takes f.sent passed) (client : Client)
    (state : σ) (k : HRESULT → Option Variant → Client → σ → Exec α) :
    (do
      let (hr, var, client, state) ← e.call host fuel port f passed client state
      k hr (vntRet f.result var) client state) =
    (do
      let (hr, var, client, state) ← Api.request host fuel port client f.id
        (passed.map VaArg.toVariant) (f.result.map retVar) e.next e.nextRet state
      k hr (vntRet f.result var) client state) := by
  have hresult := functions_result f hf
  cases f
  case calls => exact run_bind hf takes (fun _ hv => by cases hv) e.next e.nextRet client state _
  case gets id params result argc format =>
    have hpoints : ∀ v ∈ some (retVar result), ∃ p ∈ some result, p.PointsTo v := by
      intro v hv
      obtain rfl := Option.mem_some_iff.mp hv
      exact ⟨result, rfl, retVar_pointsTo fun h => hresult (congrArg some h)⟩
    exact run_bind hf takes hpoints e.next e.nextRet client state _
  case creates id params argc format =>
    have hpoints : ∀ v ∈ some (retVar .uint32), ∃ p ∈ some Api.Param.uint32, p.PointsTo v := by
      intro v hv
      obtain rfl := Option.mem_some_iff.mp hv
      exact ⟨.uint32, rfl, trivial⟩
    exact run_bind hf takes hpoints e.next e.nextRet client state _
  case releases id argc format =>
    obtain ⟨arg, passed, harg, hrest, rfl⟩ := List.forall₂_cons_left_iff.mp takes
    obtain rfl := List.forall₂_nil_left_iff.mp hrest
    cases arg
    case int h =>
      have hpoints : ∀ v ∈ some (Var.int h), ∃ p ∈ some Api.Param.uint32, p.PointsTo v := by
        intro v hv
        obtain rfl := Option.mem_some_iff.mp hv
        exact ⟨.uint32, rfl, trivial⟩
      refine (run_bind hf .nil hpoints e.next e.nextRet client state _).trans ?_
      simp only [Api.Function.perform]
      change _ =
        (Api.request host fuel port client id [.scalar .i4 h] none e.next e.nextRet state >>= _)
      cases Api.request host fuel port client id [.scalar .i4 h] none e.next e.nextRet state <;> rfl
    all_goals exact harg.elim

-- The arguments of each call are of the types that its function takes them for.
structure Execution.Sound (e : Execution) : Prop where
  typed  : ∀ branch, branches.lookup e.funcId = some branch → Typed branch e.args
  tagged : ∀ v ∈ e.args, v.Tagged

theorem Execution.run_eq {e : Execution} (he : e.Sound) (s : BcapService) (client : Client)
    (state : σ) : e.run host fuel port address s client state =
      e.perform host fuel port address s client state := by
  rw [Execution.run, Execution.perform]
  cases hb : branches.lookup e.funcId
  case none =>
    cases hf : functionOf e.funcId
    case none => rfl
    case some f =>
      obtain ⟨hmem, hid⟩ := functionOf_spec hf
      have hservice : e.funcId = idServiceStart ∨ e.funcId = idServiceStop := by
        rcases functions_lookup f hmem with h | h | h
        · exact .inl (hid ▸ h)
        · exact .inr (hid ▸ h)
        · rw [hid, hb] at h
          cases h
      exact (if_pos hservice).symm
  case some branch =>
    have hmem := List.mem_of_lookup hb
    have hsent := branches_sent _ hmem
    have hids := branches_ids _ hmem
    cases hf : functionOf e.funcId
    case none => rfl
    case some f =>
      rw [hf] at hsent
      have hsent : f.sent = branch.params.map Member.param := Option.some.inj hsent
      obtain ⟨hlisted, hid⟩ := functionOf_spec hf
      have hservice : ¬(e.funcId = idServiceStart ∨ e.funcId = idServiceStop) :=
        fun h => h.elim hids.1 hids.2
      have hlen : f.sent.length = branch.params.length := by rw [hsent, List.length_map]
      simp only [if_neg hservice, hlen]
      by_cases hl : e.args.length < branch.params.length
      case pos => rw [if_pos hl, if_pos hl]
      case neg =>
        obtain ⟨passed, hpassed, htakes, hargs⟩ := mapM_read
          (Nat.le_of_not_lt hl) (he.typed branch hb) he.tagged
        rw [← hsent] at htakes hargs
        rw [if_neg hl, if_neg hl, hpassed, Exec.ok_bind, ← hargs, ← hid]
        exact e.call_eq hlisted htakes client state fun hr ret client state =>
          pure ((hr, ret), (execFunction address f.id e.args
            ⟨hr, (ret.map (ulVal address)).getD 0⟩ s).2, client, state)

-- Calls of `ExecFunction` run as the requests that they come to.
theorem runAll_eq (es : List Execution) (hes : ∀ e ∈ es, e.Sound) (s : BcapService)
    (client : Client) (state : σ) : runAll host fuel port address es s client state =
      performAll host fuel port address es s client state := by
  induction es generalizing s client state
  case nil          => rfl
  case cons e es ih =>
    have he := List.forall_mem_cons.mp hes
    simp only [runAll, performAll, Execution.run_eq he.1, ih he.2]

end

def controllerExecutions : List Execution :=
  [ ⟨idControllerConnect, [.bstr none, .bstr none, .bstr none, .bstr none], 0, 0⟩
  , ⟨idServiceStart, [], 0, 0⟩
  , ⟨idControllerGetname, [], 0, 0⟩
  , ⟨idControllerDisconnect, [.scalar .ui4 7], 0, 0⟩ ]

theorem controllerExecutions_sound : ∀ e ∈ controllerExecutions, e.Sound := by
  simp only [controllerExecutions, List.forall_mem_cons, List.not_mem_nil, false_imp_iff,
    implies_true, and_true]
  have ht := Variant.Tagged.text none
  refine ⟨⟨?_, ?_⟩, ⟨?_, nofun⟩, ⟨?_, nofun⟩, ⟨?_, ?_⟩⟩
  · rintro _ ⟨⟩
    exact List.forall_mem_cons.mpr ⟨rfl, List.forall_mem_cons.mpr ⟨rfl, List.forall_mem_cons.mpr
      ⟨rfl, List.forall_mem_cons.mpr ⟨rfl, nofun⟩⟩⟩⟩
  · exact List.forall_mem_cons.mpr ⟨ht, List.forall_mem_cons.mpr ⟨ht, List.forall_mem_cons.mpr
      ⟨ht, List.forall_mem_cons.mpr ⟨ht, nofun⟩⟩⟩⟩
  · rintro _ ⟨⟩
  · rintro _ ⟨⟩
    nofun
  · rintro _ ⟨⟩
    exact List.forall_mem_cons.mpr ⟨.inr rfl, nofun⟩
  · exact List.forall_mem_cons.mpr ⟨Variant.Tagged.scalar (n := 19) nofun, nofun⟩

theorem controllerExecutions_run :
    (runAll ampleHost 4 Api.handlePort (fun _ => 0) controllerExecutions ⟨5, []⟩ ⟨0, 1, 1⟩
      Api.handleResponses).toOption.map (fun r => (r.1.map Prod.fst, r.2.1.vecKH)) =
      some ([sOk, eInvalidArg, eBadIndex, sOk], []) := by
  rw [runAll_eq controllerExecutions controllerExecutions_sound]
  decide +kernel

end BcapService

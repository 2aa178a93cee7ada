import Mathlib.Data.List.Count
import DensoRobot.Lib.Bytes
import DensoRobot.Lib.Ledger
import DensoRobot.Lib.Run
import DensoRobot.Service.ExecFunction

open HRESULT Bcap

namespace BcapService

-- The functions that obtain a handle, each with the one that releases what it obtains.
def obtaining : List (Int × Int) :=
  [ (idControllerConnect,      idControllerDisconnect)
  , (idControllerGetextension, idExtensionRelease)
  , (idControllerGetfile,      idFileRelease)
  , (idControllerGetrobot,     idRobotRelease)
  , (idControllerGettask,      idTaskRelease)
  , (idControllerGetvariable,  idVariableRelease)
  , (idControllerGetcommand,   idCommandRelease)
  , (idControllerGetmessage,   idMessageRelease)
  , (idExtensionGetvariable,   idVariableRelease)
  , (idFileGetfile,            idFileRelease)
  , (idFileGetvariable,        idVariableRelease)
  , (idRobotGetvariable,       idVariableRelease)
  , (idTaskGetvariable,        idVariableRelease) ]

structure Call where
  funcId : Int
  args   : List Variant
  reply  : Reply

-- What the result of a call tells about handles.
def entries (address : Nat → Nat) (call : Call) (hr : HRESULT) : List (Entry (Int × Nat)) :=
  if hr = sOk then
    match obtaining.lookup call.funcId with
    | some releaseId => [.take (releaseId, call.reply.ulVal)]
    | none =>
      if call.funcId ∈ releaseIds then [.give (call.funcId, handle address call.args)] else []
  else
    []

def Call.exec (address : Nat → Nat) (call : Call) (s : BcapService) :
    (HRESULT × Option Invocation) × BcapService :=
  execFunction address call.funcId call.args call.reply s

-- A call, where the client succeeds on open connections only (`check_address`) and obtains no
-- handle that is zero.
structure Step (address : Nat → Nat) (s : BcapService) (call : Call) (s' : BcapService) : Prop where
  connected : call.reply.hr = sOk → 0 < s.fd
  nonzero   : call.reply.hr = sOk → (obtaining.lookup call.funcId).isSome → call.reply.ulVal ≠ 0
  next      : s' = (call.exec address s).2

def log (address : Nat → Nat) (steps : List (BcapService × Call)) : List (Entry (Int × Nat)) :=
  steps.flatMap fun p => entries address p.2 (p.2.exec address p.1).1.1

-- What a case of the `switch` sets in `tmpKH` is what the function does to handles.
structure Branch.Agrees (funcId : Int) (branch : Branch) : Prop where
  first  : branch.first = (obtaining.lookup funcId).getD 0
  second : branch.second = true ↔ funcId ∈ releaseIds

instance : Decidable (Branch.Agrees funcId branch) :=
  decidable_of_iff
    (branch.first = (obtaining.lookup funcId).getD 0 ∧
      (branch.second = true ↔ funcId ∈ releaseIds))
    ⟨fun h => ⟨h.1, h.2⟩, fun h => ⟨h.first, h.second⟩⟩

theorem branches_agree : ∀ p ∈ branches, p.2.Agrees p.1 := by
  simp only [branches, List.forall_mem_append]
  decide

theorem obtaining_kinds : ∀ p ∈ obtaining, p.2 ∈ releaseIds := by
  decide

theorem releaseIds_pos : ∀ releaseId ∈ releaseIds, 0 < releaseId := by
  decide

variable {address : Nat → Nat} {call : Call} {s s' : BcapService}

-- What calls maintain.
structure Kept (s : BcapService) : Prop where
  kinds   : ∀ key ∈ s.vecKH, key.1 ∈ releaseIds
  handles : ∀ key ∈ s.vecKH, key.2 ≠ 0
  opened  : s.vecKH ≠ [] → 0 < s.fd

theorem Kept.erase_zero (k : s.Kept) (funcId : Int) :
    s.vecKH.erase (funcId, 0) = s.vecKH :=
  List.erase_of_not_mem fun hm => k.handles _ hm rfl

@[simp]
theorem exec_fd : (call.exec address s).2.fd = s.fd := by
  simp only [Call.exec, execFunction]

theorem exec_failed (h : (call.exec address s).1.1 ≠ sOk) :
    (call.exec address s).2.vecKH = s.vecKH := by
  simp only [Call.exec, execFunction] at h ⊢
  exact if_neg h

-- A call succeeds only if it reaches the client, in a case of the `switch`.
theorem exec_succeeded (h : (call.exec address s).1.1 = sOk) :
    ∃ branch, branches.lookup call.funcId = some branch ∧ call.reply.hr = sOk ∧
      (call.exec address s).2.vecKH =
        if 0 < branch.first then
          s.vecKH ++ [(branch.first, call.reply.ulVal)]
        else if 0 < if branch.second then handle address call.args else 0 then
          s.vecKH.erase (call.funcId, if branch.second then handle address call.args else 0)
        else
          s.vecKH := by
  simp only [Call.exec, execFunction, dispatch] at h ⊢
  cases hb : branches.lookup call.funcId
  case none =>
    simp only [hb] at h
    exact absurd h (by decide)
  case some branch =>
    simp only [hb] at h ⊢
    by_cases hm : call.args.length < branch.params.length
    case pos =>
      simp only [if_pos hm] at h
      exact absurd h (by decide)
    case neg =>
      simp only [if_neg hm] at h ⊢
      exact ⟨branch, rfl, h, by rw [if_pos h]⟩

-- The table changes as the entries of the log tell.
theorem exec_vecKH (k : s.Kept) :
    (call.exec address s).2.vecKH =
      (entries address call (call.exec address s).1.1).foldl Entry.post s.vecKH := by
  by_cases h : (call.exec address s).1.1 = sOk
  case neg => rw [exec_failed h, entries, if_neg h, List.foldl_nil]
  case pos =>
    obtain ⟨branch, hb, _, ht⟩ := exec_succeeded h
    have ha : branch.Agrees call.funcId := branches_agree _ (List.mem_of_lookup hb)
    rw [ht, ha.first, entries, if_pos h]
    cases ho : obtaining.lookup call.funcId
    case some releaseId =>
      have hpos := releaseIds_pos _ (obtaining_kinds _ (List.mem_of_lookup ho))
      exact if_pos hpos
    case none =>
      rw [Option.getD_none, if_neg (lt_irrefl 0)]
      by_cases hr : call.funcId ∈ releaseIds
      case pos =>
        simp only [ha.second.mpr hr, if_true, if_pos hr, List.foldl_cons,
          List.foldl_nil, Entry.post]
        by_cases hz : 0 < handle address call.args
        case pos => exact if_pos hz
        case neg => rw [if_neg hz, Nat.eq_zero_of_not_pos hz, k.erase_zero]
      case neg =>
        have hs : branch.second = false := Bool.eq_false_iff.mpr fun hs => hr (ha.second.mp hs)
        simp [hs, hr]

theorem Kept.init (h : s.vecKH = []) : s.Kept where
  kinds   := by simp [h]
  handles := by simp [h]
  opened  := fun hn => absurd h hn

theorem mem_of_mem_ite_erase [BEq α] [Decidable p] {l : List α} {a b : α}
    (h : a ∈ if p then l.erase b else l) : a ∈ l := by
  split at h
  case isTrue  => exact List.mem_of_mem_erase h
  case isFalse => exact h

-- A new entry comes from a call that obtained a handle.
theorem mem_exec_vecKH (hk : key ∈ (call.exec address s).2.vecKH) :
    key ∈ s.vecKH ∨
      call.reply.hr = sOk ∧ obtaining.lookup call.funcId = some key.1 ∧
        key.2 = call.reply.ulVal := by
  by_cases h : (call.exec address s).1.1 = sOk
  case neg => exact .inl (exec_failed h ▸ hk)
  case pos =>
    obtain ⟨branch, hb, hr, ht⟩ := exec_succeeded h
    have ha : branch.Agrees call.funcId := branches_agree _ (List.mem_of_lookup hb)
    rw [ht] at hk
    by_cases hpos : 0 < branch.first
    case pos =>
      rw [if_pos hpos] at hk
      cases List.mem_append.mp hk
      case inl hk => exact .inl hk
      case inr hk =>
        cases List.mem_singleton.mp hk
        cases ho : obtaining.lookup call.funcId
        case none =>
          rw [ha.first, ho] at hpos
          exact absurd hpos (lt_irrefl 0)
        case some releaseId => exact .inr ⟨hr, by rw [ha.first, ho]; rfl, rfl⟩
    case neg =>
      rw [if_neg hpos] at hk
      exact .inl (mem_of_mem_ite_erase hk)

theorem Step.kept (h : Step address s call s') (k : s.Kept) : s'.Kept := by
  rw [h.next]
  constructor
  case kinds =>
    intro key hk
    cases mem_exec_vecKH hk
    case inl hm => exact k.kinds key hm
    case inr hm => exact obtaining_kinds _ (List.mem_of_lookup hm.2.1)
  case handles =>
    intro key hk
    cases mem_exec_vecKH hk
    case inl hm => exact k.handles key hm
    case inr hm => exact hm.2.2 ▸ h.nonzero hm.1 (by rw [hm.2.1]; rfl)
  case opened =>
    intro hn
    rw [exec_fd]
    obtain ⟨key, hk⟩ := List.exists_mem_of_ne_nil _ hn
    cases mem_exec_vecKH hk
    case inl hm => exact k.opened (List.ne_nil_of_mem hm)
    case inr hm => exact h.connected hm.1

-- A run changes the table as its log tells.
theorem run_vecKH (r : Run (Step address) s steps t) :
    s.Kept → t.Kept ∧ t.vecKH = (log address steps).foldl Entry.post s.vecKH := by
  induction r
  case nil => exact fun k => ⟨k, rfl⟩
  case cons h _ ih =>
    intro k
    obtain ⟨kt, ht⟩ := ih (h.kept k)
    exact ⟨kt, by rw [ht, h.next, exec_vecKH k, log, log, List.flatMap_cons, List.foldl_append]⟩

theorem count_releases (closed : Bool) {s : BcapService} (k : s.Kept) (key : Int × Nat) :
    (s.disconnect closed).1.count (.release key.1 key.2) = s.vecKH.count key := by
  have hinj : Function.Injective fun key : Int × Nat => Request.release key.1 key.2 := by
    intro a b h
    cases a
    cases b
    simpa using h
  by_cases hf : 0 < s.fd
  case neg =>
    have hn : s.vecKH = [] := by
      by_contra hn
      exact hf (k.opened hn)
    simp [disconnect, hf, hn]
  case pos =>
    have hm : s.vecKH.filterMap releaseRequest = s.vecKH.map fun key => .release key.1 key.2 := by
      rw [← List.filterMap_eq_map]
      exact List.filterMap_congr fun key hk => if_pos (k.kinds key hk)
    simp only [disconnect, if_pos hf]
    rw [hm, List.count_append, List.count_map_of_injective _ _ hinj]
    rfl

theorem disconnect_vecKH (closed : Bool) {s : BcapService} (k : s.Kept) :
    (s.disconnect closed).2.vecKH = [] := by
  by_cases hf : 0 < s.fd
  case pos => simp only [disconnect, if_pos hf]
  case neg =>
    simp only [disconnect, if_neg hf]
    by_contra hn
    exact hf (k.opened hn)

-- The table holds what is outstanding, which is what disconnecting releases.
theorem table_mirrors (h : Run (Step address) s steps t) (h₀ : s.vecKH = []) (key : Int × Nat) :
    t.vecKH.count key = Entry.balance (log address steps) key ∧
      ∀ closed,
        (t.disconnect closed).1.count (.release key.1 key.2) =
          Entry.balance (log address steps) key ∧
        (t.disconnect closed).2.vecKH = [] := by
  obtain ⟨k, ht⟩ := run_vecKH h (Kept.init h₀)
  have hc : t.vecKH.count key = Entry.balance (log address steps) key := by
    rw [ht, Entry.count_foldl_post, h₀, List.count_nil, Entry.balance]
  exact ⟨hc, fun closed => ⟨hc ▸ count_releases closed k key, disconnect_vecKH closed k⟩⟩

-- A connection is made, on which the handle of a robot is obtained and released.
def connection : List (BcapService × Call) :=
  [ (⟨1, []⟩,
      ⟨idControllerConnect, [.bstr none, .bstr none, .bstr none, .bstr none], ⟨sOk, 5⟩⟩)
  , (⟨1, [(idControllerDisconnect, 5)]⟩,
      ⟨idControllerGetrobot, [.scalar .ui4 5, .bstr none, .bstr none], ⟨sOk, 7⟩⟩)
  , (⟨1, [(idControllerDisconnect, 5), (idRobotRelease, 7)]⟩,
      ⟨idRobotRelease, [.scalar .ui4 7], ⟨sOk, 0⟩⟩) ]

theorem connection_run :
    Run (Step id) ⟨1, []⟩ connection ⟨1, [(idControllerDisconnect, 5)]⟩ := by
  apply Run.cons ⟨fun _ => by decide, fun _ _ => by decide, rfl⟩
  apply Run.cons ⟨fun _ => by decide, fun _ _ => by decide, rfl⟩
  exact Run.cons ⟨fun _ => by decide, fun _ ho => absurd ho (by decide), rfl⟩ .nil

theorem table_mirrors_connection :
    [(idControllerDisconnect, 5)].count (idControllerDisconnect, 5) =
        Entry.balance (log id connection) (idControllerDisconnect, 5) ∧
      ∀ closed,
        (disconnect closed ⟨1, [(idControllerDisconnect, 5)]⟩).1.count
            (.release idControllerDisconnect 5) =
          Entry.balance (log id connection) (idControllerDisconnect, 5) ∧
        (disconnect closed ⟨1, [(idControllerDisconnect, 5)]⟩).2.vecKH = [] :=
  table_mirrors connection_run rfl (idControllerDisconnect, 5)

end BcapService

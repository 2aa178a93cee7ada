import DensoRobot.Lib.Refine
import DensoRobot.Bcap.Handshake
import DensoRobot.Theorems.Timeouts

open HRESULT

namespace Bcap.Handshake

-- Whether the executing thread waits for a request, or has ended.
def Exec.rests : Exec → Bool
  | .polling | .sleeping | .ended => true
  | _                             => false

-- Whether the receiving thread has found that no request is executed.
def Recv.cleared : Recv → Bool
  | .ready | .copied _ | .responding _ _ _ => true
  | _                                      => false

-- Whether the thread looks for a request.
def Recv.looks : Recv → Bool
  | .idle | .received | .checking => true
  | _                             => false

def Recv.isReset : Recv → Bool
  | .reset _ => true
  | _        => false

def Recv.ends : Recv → Bool
  | .joining | .closing => true
  | _                   => false

-- Whether a request was copied that has not been taken up.
def pending (h : Handshake) : Bool :=
  h.recv.handing || h.execEvt.signal || h.exec = .taken

-- No thread accesses the packets while the other one does.
def RaceFree (type : ConnType) (h : Handshake) : Prop :=
  ¬(h.recv.accesses type ∧ h.exec = .running)

-- The requests are executed once each and in their order, the last one of them perhaps not yet.
def Once (h : Handshake) : Prop :=
  h.accepted = h.executed ∨ h.accepted = h.executed ++ [h.lastRecv]

-- The threads wake up because an event was set, and `wait_event_multi` does not fail. Over COM, the
-- receiving thread waits until a request has been executed.
def Prompt (type : ConnType) (h : Handshake) : Act → Prop
  | .stir _             => False
  | .fail _             => False
  | .turn bcapSend time => type = .com → ∀ start execTimeout turns,
    h.recv = .sleeping start execTimeout turns →
      waitCompletion start execTimeout [⟨eTimeout, bcapSend, time⟩] = none
  | .setExec _ _        => type = .com → ∀ hr, h.recv = .reset hr → Succeeded hr
  | _                   => True

-- What the events tell about the threads.
structure Synchronized (type : ConnType) (h : Handshake) : Prop where
  manual  : h.compEvt.mode = true
  auto    : h.execEvt.mode = false
  quiet   : h.compEvt.signal = true → h.execEvt.signal = false ∧ h.exec.rests ∧ ¬h.recv.isReset
  cleared : h.recv.cleared → h.compEvt.signal = true
  reset   : h.recv.isReset → h.execEvt.signal = false ∧ h.exec.rests
  single  : h.execEvt.signal = true → h.exec.rests
  recv    : h.recv.waits → .recv ∉ h.compEvt.asleep → h.compEvt.signal = true
  exec    : h.exec = .sleeping → .exec ∉ h.execEvt.asleep → h.execEvt.signal = true
  term    : h.termSubEvt = true → h.recv.ends
  ended   : h.exec = .ended → h.termSubEvt = true
  closing : h.recv = .closing → h.exec = .ended
  patient : type = .com → h.recv.looks → h.compEvt.signal = true

section

variable (hr : HRESULT)

theorem returned_cases : Recv.returned hr = .leaving ∨ Recv.returned hr = .idle := by
  rw [Recv.returned]
  split
  case isTrue  => exact .inl rfl
  case isFalse => exact .inr rfl

@[simp, grind =]
theorem cleared_returned : (Recv.returned hr).cleared = false := by
  cases returned_cases hr <;> simp [*, Recv.cleared]

@[simp, grind =]
theorem isReset_returned : (Recv.returned hr).isReset = false := by
  cases returned_cases hr <;> simp [*, Recv.isReset]

@[simp, grind =]
theorem waits_returned : (Recv.returned hr).waits = false := by
  cases returned_cases hr <;> simp [*, Recv.waits]

@[simp, grind =]
theorem handing_returned : (Recv.returned hr).handing = false := by
  cases returned_cases hr <;> simp [*, Recv.handing]

@[simp, grind =]
theorem ends_returned : (Recv.returned hr).ends = false := by
  cases returned_cases hr <;> simp [*, Recv.ends]

@[simp, grind .]
theorem returned_ne_closing : Recv.returned hr ≠ .closing := by
  cases returned_cases hr <;> simp [*]

end

attribute [local grind =] Recv.cleared Recv.isReset Recv.waits Recv.handing Recv.ends Recv.looks
  Exec.rests

theorem synchronized_start (type : ConnType) (memory : Memory VecObject) :
    Synchronized type (start memory) := by
  constructor <;> grind [start]

variable {listed : Int → Bool} {type : ConnType} {h h' : Handshake} {a : Act}

theorem woken_cleared {r : Recv} : r.woken.cleared = true ∧ r.woken.isReset = false ∧
    r.woken.waits = false ∧ r.woken.looks = false ∧ r.woken ≠ .closing := by
  cases r <;> simp [Recv.woken, Recv.cleared, Recv.isReset, Recv.waits, Recv.looks]

@[simp, grind =]
theorem handing_woken {r : Recv} : r.woken.handing = false := by
  cases r <;> rfl

theorem waits_elsewhere {r : Recv} (h : r.waits = true) : r.ends = false ∧ r.handing = false := by
  cases r <;> simp_all [Recv.waits, Recv.ends, Recv.handing]

-- The receiving thread goes on, without setting or resetting an event.
theorem Synchronized.recv_moves (i : Synchronized type h) (hx : h'.execEvt = h.execEvt)
    (he : h'.exec = h.exec) (ht : h'.termSubEvt = h.termSubEvt)
    (hm : h'.compEvt.mode = h.compEvt.mode)
    (hs : h'.compEvt.signal = h.compEvt.signal) (hreset : h'.recv.isReset = false)
    (hcleared : h'.recv.cleared → h.compEvt.signal = true)
    (hwaits : h'.recv.waits → .recv ∈ h'.compEvt.asleep ∨ h.compEvt.signal = true)
    (hends : h.recv.ends → h'.recv.ends) (hclosing : h'.recv = .closing → h.exec = .ended)
    (hlooks : type = .com → h'.recv.looks → h.compEvt.signal = true) : Synchronized type h' := by
  obtain ⟨manual, auto, quiet, cleared, reset, single, recv, exec, term, ended, closing,
    patient⟩ := i
  constructor <;> grind

-- The executing thread goes on, without setting an event.
theorem Synchronized.exec_moves (i : Synchronized type h) (hc : h'.compEvt = h.compEvt)
    (hr : h'.recv = h.recv) (ht : h'.termSubEvt = h.termSubEvt)
    (hm : h'.execEvt.mode = h.execEvt.mode)
    (hs : h'.execEvt.signal → h.execEvt.signal ∧ h'.exec.rests)
    (hrests : h'.exec.rests ∨ h.compEvt.signal = false ∧ h.recv.isReset = false)
    (hwaits : h'.exec = .sleeping → .exec ∈ h'.execEvt.asleep ∨ h'.execEvt.signal = true)
    (hended : h.exec = .ended ∨ h'.exec = .ended → h'.exec = .ended ∧ h.termSubEvt = true) :
    Synchronized type h' := by
  obtain ⟨manual, auto, quiet, cleared, reset, single, recv, exec, term, ended, closing,
    patient⟩ := i
  constructor <;> grind

-- Nothing is pending while the executing thread is at work, and its request has not been completed.
theorem Synchronized.working (i : Synchronized type h) (he : h.exec.rests = false) :
    h.execEvt.signal = false ∧ h.compEvt.signal = false ∧ h.recv.isReset = false ∧
      h.exec ≠ .ended := by
  have := i.quiet
  have := i.reset
  have := i.single
  grind

-- The executing thread wakes up, as a request was handed over.
theorem Synchronized.exec_wakes (i : Synchronized type h) (he : h.exec = .sleeping)
    (hn : .exec ∉ h.execEvt.asleep) : Synchronized type h.execWoken := by
  have hs : h.execEvt.signal = true := i.exec he hn
  have htaken : (h.execEvt.rouse .exec).take.signal = false := Event.signal_take_of_mode i.auto
  have hset := i.quiet
  have hreset := i.reset
  refine i.exec_moves rfl rfl rfl Event.mode_take ?_ ?_ ?_ ?_ <;> grind [execWoken]

-- The receiving thread wakes up, as a request has been executed.
theorem Synchronized.recv_wakes (i : Synchronized type h) (hw : h.recv.waits = true)
    (hn : .recv ∉ h.compEvt.asleep) : Synchronized type h.recvWoken := by
  have hs : h.compEvt.signal = true := i.recv hw hn
  have hends : h.recv.ends = false := (waits_elsewhere hw).1
  have htaken : (h.compEvt.rouse .recv).take = h.compEvt.rouse .recv := Event.take_of_mode i.manual
  obtain ⟨hc, hr, hw, hl, hn⟩ := @woken_cleared h.recv
  refine i.recv_moves rfl rfl rfl Event.mode_take ?_ ?_ ?_ ?_ ?_ ?_ ?_ <;> grind [recvWoken]

-- The receiving thread has returned from `receive_execute`.
theorem Synchronized.recv_returns (i : Synchronized type h) {e : Event Thread}
    {vector : ObjectVector}
    {hr : HRESULT} (hm : e.mode = h.compEvt.mode) (hs : e.signal = h.compEvt.signal)
    (he : h.recv.ends = false) (hlooks : type = .com → h.compEvt.signal = true) :
    Synchronized type { h with vector := vector, compEvt := e, recv := .returned hr } := by
  refine i.recv_moves rfl rfl rfl hm hs ?_ ?_ ?_ ?_ ?_ ?_
  case refine_6 => exact fun ht _ => hlooks ht
  all_goals grind

-- `comp_evt` is reset before a request is handed over.
theorem Synchronized.reset_comp (i : Synchronized type h) {hr : HRESULT}
    (hc : h.recv = .copied hr) :
    Synchronized type { h with compEvt := h.compEvt.reset, recv := .reset hr } := by
  obtain ⟨manual, auto, quiet, cleared, reset, single, recv, exec, term, ended, closing,
    patient⟩ := i
  constructor <;> grind

theorem Synchronized.set_exec (i : Synchronized type h) {hr : HRESULT} {start execTimeout : Nat}
    (hc : h.recv = .reset hr) (hp : type = .com → Succeeded hr) :
    Synchronized type
      { h with
        execEvt := h.execEvt.set
        recv    := if Succeeded hr then .turning start execTimeout [] else .returned hr } := by
  obtain ⟨manual, auto, quiet, cleared, reset, single, recv, exec, term, ended, closing,
    patient⟩ := i
  constructor <;> grind

theorem Synchronized.set_term (i : Synchronized type h) :
    Synchronized type { h with termSubEvt := true, recv := .joining } := by
  obtain ⟨manual, auto, quiet, cleared, reset, single, recv, exec, term, ended, closing,
    patient⟩ := i
  constructor <;> grind

theorem Synchronized.set_comp (i : Synchronized type h) (he : h.exec = .finished) :
    Synchronized type { h with compEvt := h.compEvt.set, exec := .polling } := by
  have hw := i.working (by rw [he]; rfl)
  obtain ⟨manual, auto, quiet, cleared, reset, single, recv, exec, term, ended, closing,
    patient⟩ := i
  constructor <;> grind

theorem Synchronized.step (st : Step listed h a h') (ok : h.Prompt type a)
    (i : Synchronized type h) :
    Synchronized type h' := by
  cases st
  case receive hr =>
    have hlooks ht := i.patient ht (by rw [hr]; rfl)
    exact i.recv_moves rfl rfl rfl rfl rfl rfl nofun nofun
      (by rw [hr]; nofun) nofun fun ht _ => hlooks ht
  case refuse hr hn => refine i.recv_returns rfl rfl ?_ ?_ <;> grind [i.patient, i.cleared]
  case checked hr hs =>
    have heq := congrArg Event.signal (Event.take_of_mode i.manual)
    exact i.recv_moves rfl rfl rfl Event.mode_take heq rfl (fun _ => hs) nofun (by rw [hr]; nofun)
      nofun nofun
  case checking hr hs =>
    have hlooks ht := i.patient ht (by rw [hr]; rfl)
    exact i.recv_moves rfl rfl rfl rfl rfl rfl nofun (fun _ => .inl List.mem_cons_self)
      (by rw [hr]; nofun) nofun fun ht _ => hlooks ht
  case busy hr =>
    exact i.recv_returns rfl rfl (by rw [hr]; rfl) fun ht => i.patient ht (by rw [hr]; rfl)
  case copy p hr hr' hp hn =>
    have hs := i.cleared (by rw [hr']; rfl)
    exact i.recv_moves rfl rfl rfl rfl rfl rfl (fun _ => hs) nofun (by rw [hr']; nofun) nofun nofun
  case resetComp hr => exact i.reset_comp hr
  case setExec hres t timeout hr => exact i.set_exec hr fun ht => ok ht _ hr
  case waited t timeout turns hr hs =>
    have heq := congrArg Event.signal (Event.take_of_mode i.manual)
    exact i.recv_moves rfl rfl rfl Event.mode_take heq rfl (fun _ => hs) nofun (by rw [hr]; nofun)
      nofun nofun
  case waiting t timeout turns hr hs =>
    exact i.recv_moves rfl rfl rfl rfl rfl rfl nofun (fun _ => .inl List.mem_cons_self)
      (by rw [hr]; nofun) nofun nofun
  case turn t timeout time turns bcapSend hr =>
    refine i.recv_moves rfl rfl rfl rfl rfl ?_ ?_ ?_ ?_ ?_ ?_ <;> grind [Prompt]
  case respond hr hp hv =>
    exact i.recv_returns rfl rfl (by rw [hr]; rfl) fun _ => i.cleared (by rw [hr]; rfl)
  case terminate hr =>
    exact i.recv_moves rfl rfl rfl rfl rfl rfl nofun nofun (by rw [hr]; nofun) nofun nofun
  case setTerm hr => exact i.set_term
  case join hr he =>
    exact i.recv_moves rfl rfl rfl rfl rfl rfl nofun nofun (fun _ => rfl) (fun _ => he) nofun
  case taken he hs =>
    refine i.exec_moves rfl rfl rfl Event.mode_take ?_ ?_ ?_ ?_ <;> grind [i.auto, i.quiet, i.reset]
  case polling he hs =>
    exact i.exec_moves rfl rfl rfl rfl (fun h => ⟨h, rfl⟩) (.inl rfl)
      (fun _ => .inl List.mem_cons_self)
      (by rw [he]; nofun)
  case pollAgain he =>
    exact i.exec_moves rfl rfl rfl rfl (fun h => ⟨h, rfl⟩) (.inl rfl) nofun (by rw [he]; nofun)
  case run he =>
    have hw := i.working (by rw [he]; rfl)
    refine i.exec_moves rfl rfl rfl rfl ?_ ?_ ?_ ?_ <;> grind
  case complete he =>
    have hw := i.working (by rw [he]; rfl)
    refine i.exec_moves rfl rfl rfl rfl ?_ ?_ ?_ ?_ <;> grind
  case setComp he => exact i.set_comp he
  case finish he ht =>
    exact i.exec_moves rfl rfl rfl rfl (fun h => ⟨h, rfl⟩) (.inl rfl) nofun fun _ => ⟨rfl, ht⟩
  case wake t hw hn =>
    cases t
    case recv => exact i.recv_wakes hw hn
    case exec => exact i.exec_wakes hw hn
  case stir t hw hm => exact ok.elim
  case fail hr he   => exact ok.elim

theorem Synchronized.raceFree (i : Synchronized type h) : RaceFree type h := by
  rintro ⟨hr, he⟩
  have hrests : h.exec.rests = false := by rw [he]; rfl
  have hset : h.compEvt.signal = false := by
    by_contra hs
    have hq := (i.quiet (by simpa using hs)).2.1
    rw [hrests] at hq
    cases hq
  cases hrecv : h.recv
  case received =>
    rw [hrecv] at hr
    have hs := i.patient (by simpa [Recv.accesses] using hr) (by rw [hrecv]; rfl)
    rw [hset] at hs
    cases hs
  case ready =>
    have hs := i.cleared (by rw [hrecv]; rfl)
    rw [hset] at hs
    cases hs
  case responding =>
    have hs := i.cleared (by rw [hrecv]; rfl)
    rw [hset] at hs
    cases hs
  case closing =>
    have hend := i.closing hrecv
    rw [he] at hend
    cases hend
  all_goals simp [hrecv, Recv.accesses] at hr

-- Nothing is pending while the executing thread is at work.
theorem Synchronized.handing (i : Synchronized type h) (he : h.exec.rests = false) :
    h.recv.handing = false ∧ h.execEvt.signal = false := by
  have := i.cleared
  have := i.reset
  have := i.single
  have := i.quiet
  cases hr : h.recv <;> grind

-- No request is pending or executed when the event for its completion is set.
theorem Synchronized.clear (i : Synchronized type h) (hs : h.compEvt.signal = true)
    (hr : h.recv.ends = false) :
    h.execEvt.signal = false ∧ h.exec ≠ .ended ∧ h.exec ≠ .taken ∧ h.exec ≠ .running := by
  have := i.quiet
  have := i.term
  have := i.ended
  grind

-- What the requests that were copied and those that were executed have in common.
structure Booked (h : Handshake) : Prop where
  idle   : h.pending = false → h.exec ≠ .ended → h.accepted = h.executed
  handed : h.pending = true → h.accepted = h.executed ++ [h.lastRecv]
  once   : Once h

theorem booked_start (memory : Memory VecObject) : Booked (start memory) where
  idle   := fun _ _ => rfl
  handed := fun hp => by simp [pending, start, Recv.handing, Event.create] at hp
  once   := .inl rfl

-- A step that neither copies a request nor executes one.
theorem Booked.keep (b : Booked h) (ha : h'.accepted = h.accepted) (hx : h'.executed = h.executed)
    (hl : h'.lastRecv = h.lastRecv) (hp : h'.pending = true → h.pending = true)
    (he : h'.exec ≠ .ended → h'.pending = h.pending ∧ h.exec ≠ .ended) : Booked h' where
  idle   := fun hn hne => by rw [ha, hx]; exact b.idle ((he hne).1 ▸ hn) (he hne).2
  handed := fun hh => by rw [ha, hx, hl]; exact b.handed (hp hh)
  once   := by rw [Once, ha, hx, hl]; exact b.once

theorem Booked.step (st : Step listed h a h') (ok : h.Prompt type a) (i : Synchronized type h)
    (b : Booked h) : Booked h' := by
  have hidle := b.idle
  have hhanded := b.handed
  cases st
  case copy p hr hr' hp hn =>
    have hs := i.cleared (by rw [hr']; rfl)
    obtain ⟨hsig, hend, htaken, -⟩ := i.clear hs (by rw [hr']; rfl)
    have heq := hidle (by simp [pending, hr', Recv.handing, hsig, htaken]) hend
    constructor <;> simp [pending, Recv.handing, heq, Once]
  case run he =>
    obtain ⟨hh, hs⟩ := i.handing (by rw [he]; rfl)
    have heq := hhanded (by simp [pending, he])
    constructor <;> simp [pending, hh, hs, heq, Once]
  case stir t hw hm => exact ok.elim
  case fail hr he   => exact ok.elim
  case refuse hr hn => refine b.keep rfl rfl rfl ?_ ?_ <;> grind [pending]
  case wake t hw hn =>
    cases t
    case recv =>
      have hh : h.recv.handing = false := (waits_elsewhere hw).2
      have hp : (h.woken .recv).pending = h.pending :=
        congrArg (· || h.execEvt.signal || h.exec = .taken) (handing_woken.trans hh.symm)
      exact b.keep rfl rfl rfl (fun hn => hp ▸ hn) (fun he => ⟨hp, he⟩)
    case exec =>
      have he : h.exec = .sleeping := hw
      have hs : h.execEvt.signal = true := i.exec hw hn
      refine b.keep rfl rfl rfl ?_ ?_ <;> simp [pending, woken, execWoken, he, hs]
  all_goals
    refine b.keep rfl rfl rfl ?_ ?_ <;> grind [pending]

-- What the loop in `receive_execute` has found so far.
def Recv.timed : Recv → Prop
  | .turning start execTimeout turns | .sleeping start execTimeout turns =>
    waitCompletion start execTimeout turns = none
  | .responding start execTimeout turns =>
      waitCompletion start execTimeout turns = some (.completed sOk)
  | _ => True

theorem timed_returned (hr : HRESULT) : (Recv.returned hr).timed := by
  cases returned_cases hr <;> simp [*, Recv.timed]

theorem timed_responding {start execTimeout : Nat} {turns : List WaitTurn}
    (ht : waitCompletion start execTimeout turns = none) :
    (Recv.responding start execTimeout (turns ++ [⟨sOk, sOk, 0⟩])).timed := by
  rw [Recv.timed, Timeouts.waitCompletion_append ht]
  exact if_pos succeeded_sOk

theorem timed_woken {r : Recv} (ht : r.timed) : r.woken.timed := by
  cases r
  case sleeping => exact timed_responding ht
  all_goals trivial

theorem timed_step (st : Step listed h a h') (ht : h.recv.timed) : h'.recv.timed := by
  cases st
  case refuse hr hn   => exact timed_returned _
  case busy hr        => exact timed_returned eTimeout
  case respond        => exact timed_returned _
  case setExec hr t timeout hr' =>
    simp only
    split
    case isTrue  => exact rfl
    case isFalse => exact timed_returned hr
  case waited t timeout turns hr hs =>
    rw [hr] at ht
    exact timed_responding ht
  case waiting t timeout turns hr hs =>
    rw [hr] at ht
    exact ht
  case turn t timeout time turns bcapSend hr =>
    rw [hr] at ht
    simp only
    split
    case h_1 hw => exact (Timeouts.waitCompletion_append ht).trans hw
    case h_2    => exact timed_returned _
  case wake t hw hn =>
    cases t
    case recv => exact timed_woken ht
    case exec => exact ht
  case stir t hw hm =>
    cases t
    case recv => exact timed_woken ht
    case exec => exact ht
  all_goals first | exact ht | trivial

-- A step that the coarser model does not tell.
theorem toReceiver_eq (hv : h'.vector = h.vector) (hr : h'.lastRecv = h.lastRecv)
    (hs : h'.lastSend = h.lastSend) (hl : h'.log = h.log) (hp : h'.recv.phase = h.recv.phase)
    (he : h'.toReceiver.executing = h.toReceiver.executing) : h'.toReceiver = h.toReceiver := by
  simp only [toReceiver] at he ⊢
  rw [hv, hr, hs, hl, hp, he]

-- A step of the receiving thread that the coarser model does not tell.
theorem recv_silent (recv : Recv) (compEvt : Event Thread) (termSubEvt : Bool)
    (hp : recv.phase = h.recv.phase) (hh : recv.handing = h.recv.handing) :
    ({ h with recv := recv, compEvt := compEvt, termSubEvt := termSubEvt } : Handshake).toReceiver =
      h.toReceiver := by
  simp only [toReceiver, hp, hh]

theorem executing_iff : h.toReceiver.executing = true ↔ h.exec ≠ .ended ∧
    (h.recv.handing = true ∨ h.execEvt.signal = true ∨ h.exec = .taken ∨ h.exec = .running) := by
  simp [toReceiver]

theorem phase_returned (hr : HRESULT) : (Recv.returned hr).phase =
    if Failed hr ∧ hr ≠ eTimeout then .leaving else .idle := by
  rw [Recv.returned]
  split <;> rfl

theorem toReceiver_returned (hh : h.recv.handing = false) (vector : ObjectVector)
    (compEvt : Event Thread) (hr : HRESULT) :
    ({ h with vector := vector, compEvt := compEvt, recv := .returned hr } : Handshake).toReceiver =
      ({ h.toReceiver with vector := vector } : Receiver).returned hr := by
  simp only [toReceiver, Receiver.returned, phase_returned, handing_returned, hh]

theorem toReceiver_copied (he : h.exec ≠ .ended) (p : Receiver.Request) (hr : HRESULT) :
    ({ h with lastRecv := p, recv := .copied hr, accepted := h.accepted ++ [p] } :
    Handshake).toReceiver =
      h.toReceiver.accept p hr := by
  rw [Receiver.accept]
  split
  case isTrue hs  => simp [toReceiver, Recv.handing, Recv.phase, he, hs]
  case isFalse hs => simp [toReceiver, Recv.handing, Recv.phase, Receiver.returned, he, hs]

theorem toReceiver_completed (hh : h.recv.handing = false) (hs : h.execEvt.signal = false)
    (result : Receiver.Response) :
    ({ h with
      lastSend := Receiver.bcapCallfunc listed h.lastRecv result h.lastSend
      log      := h.log ++
        Receiver.changes h.lastRecv (Receiver.bcapCallfunc listed h.lastRecv result h.lastSend)
      exec     := .finished } : Handshake).toReceiver = h.toReceiver.complete listed result := by
  simp [toReceiver, Receiver.complete, hh, hs]

-- A turn in which `wait_event` has timed out does not find that the request was executed.
theorem late_turn {start execTimeout time : Nat} {bcapSend : HRESULT} {w : Waited}
    (hw : waitCompletion start execTimeout [⟨eTimeout, bcapSend, time⟩] = some w) (hr : HRESULT) :
    w ≠ .completed hr := by
  have hfailed : ¬Succeeded eTimeout := failed_eTimeout.not_succeeded
  rintro rfl
  simp only [waitCompletion, if_neg hfailed] at hw
  split at hw
  case isTrue => cases hw
  case isFalse =>
    split at hw
    case isTrue  => cases hw
    case isFalse => cases hw

-- The executing thread has ended, with or without having taken up a request.
theorem ended_sim (hphase : h.recv.phase = .leaving) :
    ({ h with exec := .ended } : Handshake).toReceiver = h.toReceiver ∨
      ∃ b, Receiver.Step listed h.toReceiver b
        ({ h with exec := .ended } : Handshake).toReceiver := by
  have hended :
      ({ h with exec := .ended } : Handshake).toReceiver =
        { h.toReceiver with executing := false } := by
    simp [toReceiver]
  by_cases he : h.toReceiver.executing = true
  case pos =>
    refine .inr ⟨.drop, ?_⟩
    rw [hended]
    exact .drop hphase he
  case neg =>
    have hf : h.toReceiver.executing = false := by simpa using he
    exact .inl (by rw [hended, ← hf])

-- Each step of the threads is one of the coarser model, or nothing that it tells.
theorem Synchronized.sim (st : Step listed h a h') (ok : h.Prompt type a) (i : Synchronized type h)
    (ht : h.recv.timed) :
    h'.toReceiver = h.toReceiver ∨ ∃ b, Receiver.Step listed h.toReceiver b h'.toReceiver := by
  cases st
  case refuse hres hr hn =>
    have hphase : h.recv.phase = .idle ∧ h.recv.handing = false := by
      obtain hr | hr | hr := hr <;> rw [hr] <;> exact ⟨rfl, rfl⟩
    have heq := toReceiver_returned hphase.2 h.vector h.compEvt hres
    exact .inr ⟨.refuse hres, heq ▸ .refuse hphase.1 hn⟩
  case copy p hres hr hp hn =>
    have hs := i.cleared (by rw [hr]; rfl)
    obtain ⟨hsig, hend, htaken, hrun⟩ := i.clear hs (by rw [hr]; rfl)
    have hexecuting : h.toReceiver.executing = false := by
      simp [toReceiver, hr, Recv.handing, hsig, htaken, hrun]
    have hphase : h.toReceiver.phase = .idle := by rw [toReceiver, hr]; rfl
    exact .inr ⟨.accept p hres, toReceiver_copied hend p hres ▸ .accept hphase hexecuting hp hn⟩
  case respond t timeout turns pObj bcapSend vector hr hp hv =>
    have hs := i.cleared (by rw [hr]; rfl)
    obtain ⟨hsig, hend, htaken, hrun⟩ := i.clear hs (by rw [hr]; rfl)
    have hh : h.recv.handing = false := by rw [hr]; rfl
    have hexecuting : h.toReceiver.executing = false := by
      simp [toReceiver, hh, hsig, htaken, hrun]
    have hphase : h.toReceiver.phase = .waiting := by rw [toReceiver, hr]; rfl
    have heq := toReceiver_returned hh vector h.compEvt bcapSend
    rw [hr] at ht
    exact .inr ⟨.wait t timeout turns pObj bcapSend, heq ▸ .respond hphase hexecuting ht hp hv⟩
  case turn t timeout time turns bcapSend hr =>
    have hh : h.recv.handing = false := by rw [hr]; rfl
    have hphase : h.toReceiver.phase = .waiting := by rw [toReceiver, hr]; rfl
    rw [hr] at ht
    cases hw : waitCompletion t timeout [⟨eTimeout, bcapSend, time⟩]
    case none =>
      refine .inl (toReceiver_eq rfl rfl rfl rfl ?_ ?_)
      case refine_1 => rw [hr]; rfl
      case refine_2 => simp [toReceiver, hr, Recv.handing]
    case some w =>
      have hall := (Timeouts.waitCompletion_append ht).trans hw
      have hstep : Receiver.Step listed h.toReceiver (.wait t timeout _ none sOk) _ :=
        .abandon hphase hall (late_turn hw)
      have heq := toReceiver_returned hh h.vector (h.compEvt.rouse .recv) w.hr
      exact .inr ⟨_, heq.symm ▸ hstep⟩
  case terminate hr =>
    have hphase : h.toReceiver.phase = .idle := by rw [toReceiver, hr]; rfl
    have heq : ({ h with recv := .leaving } : Handshake).toReceiver =
        { h.toReceiver with phase := .leaving } := by
      simp [toReceiver, hr, Recv.handing, Recv.phase]
    exact .inr ⟨.terminate, heq ▸ .terminate hphase⟩
  case complete result he =>
    obtain ⟨hh, hs⟩ := i.handing (by rw [he]; rfl)
    have hexecuting : h.toReceiver.executing = true :=
      executing_iff.mpr ⟨by simp [he], by simp [he]⟩
    exact .inr ⟨.complete result, toReceiver_completed hh hs result ▸ .complete hexecuting⟩
  case finish he hterm =>
    have hends := i.term hterm
    refine ended_sim ?_
    cases hr : h.recv <;> simp_all [Recv.ends, Recv.phase]
  case receive hr => exact .inl (recv_silent _ _ _ (by rw [hr]; rfl) (by rw [hr]; rfl))
  case checked hr hs => exact .inl (recv_silent _ _ _ (by rw [hr]; rfl) (by rw [hr]; rfl))
  case checking hr hs => exact .inl (recv_silent _ _ _ (by rw [hr]; rfl) (by rw [hr]; rfl))
  case busy hr => exact .inl (recv_silent _ _ _ (by rw [hr]; rfl) (by rw [hr]; rfl))
  case resetComp hr => exact .inl (recv_silent _ _ _ (by rw [hr]; rfl) (by rw [hr]; rfl))
  case waited hr hs => exact .inl (recv_silent _ _ _ (by rw [hr]; rfl) (by rw [hr]; rfl))
  case waiting hr hs => exact .inl (recv_silent _ _ _ (by rw [hr]; rfl) (by rw [hr]; rfl))
  case setTerm hr => exact .inl (recv_silent _ _ _ (by rw [hr]; rfl) (by rw [hr]; rfl))
  case join hr he => exact .inl (recv_silent _ _ _ (by rw [hr]; rfl) (by rw [hr]; rfl))
  case setExec hres t timeout hr =>
    refine .inl (toReceiver_eq rfl rfl rfl rfl ?_ ?_)
    case refine_1 =>
      show (if Succeeded hres then Recv.turning t timeout [] else .returned hres).phase =
        h.recv.phase
      rw [hr]
      by_cases hs : Succeeded hres
      case pos => rw [if_pos hs, Recv.phase, Recv.phase, if_pos hs]
      case neg => rw [if_neg hs, phase_returned, Recv.phase, if_neg hs]
    case refine_2 => simp [toReceiver, hr, Recv.handing, Event.set]
  case taken he hs =>
    refine .inl (toReceiver_eq rfl rfl rfl rfl rfl ?_)
    simp [toReceiver, he, hs]
  case polling he hs =>
    refine .inl (toReceiver_eq rfl rfl rfl rfl rfl ?_)
    simp [toReceiver, he, hs, Event.sleep]
  case pollAgain he =>
    refine .inl (toReceiver_eq rfl rfl rfl rfl rfl ?_)
    simp [toReceiver, he, Event.rouse]
  case run he =>
    refine .inl (toReceiver_eq rfl rfl rfl rfl rfl ?_)
    simp [toReceiver, he]
  case setComp he =>
    refine .inl (toReceiver_eq rfl rfl rfl rfl rfl ?_)
    simp [toReceiver, he]
  case wake t hw hn =>
    cases t
    case recv =>
      have hh : h.recv.handing = false := (waits_elsewhere hw).2
      refine .inl (recv_silent _ _ _ ?_ (handing_woken.trans hh.symm))
      cases hr : h.recv
      case checking => rfl
      case sleeping => rfl
      all_goals
        rw [Waits, hr] at hw
        cases hw
    case exec =>
      have he : h.exec = .sleeping := hw
      have hs : h.execEvt.signal = true := i.exec hw hn
      refine .inl (toReceiver_eq rfl rfl rfl rfl rfl ?_)
      simp [toReceiver, woken, execWoken, he, hs]
  case stir t hw hm => exact ok.elim
  case fail hr he   => exact ok.elim

-- What the threads maintain.
structure Orderly (type : ConnType) (h : Handshake) :
    Prop extends Synchronized type h, Booked h where
  timed : h.recv.timed

theorem orderly_start (type : ConnType) (memory : Memory VecObject) :
    Orderly type (start memory) where
  toSynchronized := synchronized_start type memory
  toBooked       := booked_start memory
  timed          := trivial

theorem orderly_refines (listed : Int → Bool) (type : ConnType) :
    Refines (Step listed) (Receiver.Step listed) (Orderly type) (Prompt type) toReceiver where
  keep st ok i :=
    { i.toSynchronized.step st ok, i.toBooked.step st ok i.toSynchronized with
      timed := timed_step st i.timed }
  sim st ok i := i.toSynchronized.sim st ok i.timed

-- In a run of both threads in which no thread wakes up without reason, the packets are never
-- accessed by both of them, the requests are executed once each, and the run is one of the coarser
-- model.
theorem threads_refine {memory : Memory VecObject} {steps : List (Handshake × Act)}
    (r : Run (Step listed) (start memory) steps h) (ok : ∀ p ∈ steps, p.1.Prompt type p.2) :
    RaceFree type h ∧ Once h ∧
      ∃ steps', Run (Receiver.Step listed) (Receiver.start memory) steps' h.toReceiver := by
  obtain ⟨i, steps', r'⟩ := (orderly_refines listed type).run r ok (orderly_start type memory)
  exact ⟨i.raceFree, i.once, steps', r'⟩

theorem woken_step (hw : h.recv.waits = true) (hn : .recv ∉ h.compEvt.asleep) :
    Step listed h (.wake .recv) h.recvWoken :=
  .wake (t := .recv) hw hn

theorem stirred_step (hw : h.recv.waits = true) (hn : .recv ∈ h.compEvt.asleep) :
    Step listed h (.stir .recv) h.recvWoken :=
  .stir (t := .recv) hw hn

-- A request is executed while the receiving thread sleeps, and is responded to.
theorem served_refines :
    ∃ steps h, Run (Step fun _ => true) (start ⟨fun _ => none, 0, []⟩) steps h ∧
      h.executed = [⟨11, none⟩] ∧ h.recv = .idle ∧ RaceFree .com h ∧ Once h ∧
      ∃ steps', Run (Receiver.Step fun _ => true) (Receiver.start ⟨fun _ => none, 0, []⟩) steps'
        h.toReceiver := by
  have r : Run (Step fun _ => true) (start ⟨fun _ => none, 0, []⟩) _ _ :=
    .cons (a := .receive) (.receive rfl) <| .cons (a := .check) (.checked rfl rfl) <|
    .cons (a := .copy ⟨11, none⟩ sOk) (.copy rfl (fun _ => rfl) (by decide)) <|
    .cons (a := .resetComp) (.resetComp rfl) <| .cons (a := .setExec 0 10) (.setExec rfl) <|
    .cons (a := .wait) (.waiting rfl rfl) <| .cons (a := .poll) (.taken rfl rfl) <|
    .cons (a := .run) (.run rfl) <| .cons (a := .complete ⟨sOk, 0⟩) (.complete rfl) <|
    .cons (a := .setComp) (.setComp rfl) <|
      .cons (a := .wake .recv) (woken_step rfl List.not_mem_nil) <|
    .cons (a := .respond none sOk) (.respond rfl (fun _ h => by cases h) rfl) .nil
  refine ⟨_, _, r, rfl, rfl, threads_refine r ?_⟩
  iterate 4 refine List.forall_mem_cons.mpr ⟨trivial, ?_⟩
  refine List.forall_mem_cons.mpr ⟨?_, ?_⟩
  case refine_1 => rintro - hr ⟨⟩; exact succeeded_sOk
  iterate 7 refine List.forall_mem_cons.mpr ⟨trivial, ?_⟩
  exact List.forall_mem_nil _

-- The receiving thread wakes up too early, and responds while the callback is still running.
theorem stirred_races : ∃ steps h,
    Run (Step fun _ => true) (start ⟨fun _ => none, 0, []⟩) steps h ∧ ¬RaceFree .tcp h := by
  have r : Run (Step fun _ => true) (start ⟨fun _ => none, 0, []⟩) _ _ :=
    .cons (a := .receive) (.receive rfl) <| .cons (a := .check) (.checked rfl rfl) <|
    .cons (a := .copy ⟨11, none⟩ sOk) (.copy rfl (fun _ => rfl) (by decide)) <|
    .cons (a := .resetComp) (.resetComp rfl) <| .cons (a := .setExec 0 10) (.setExec rfl) <|
    .cons (a := .wait) (.waiting rfl rfl) <| .cons (a := .poll) (.taken rfl rfl) <|
    .cons (a := .run) (.run rfl) <|
    .cons (a := .stir .recv) (stirred_step rfl List.mem_cons_self) .nil
  exact ⟨_, _, r, fun h => h ⟨rfl, rfl⟩⟩

-- Over COM, a packet is compared with the response that is just made, as the receiving thread has
-- not waited for it.
theorem impatient_races : ∃ steps h,
    Run (Step fun _ => true) (start ⟨fun _ => none, 0, []⟩) steps h ∧ ¬RaceFree .com h := by
  have r : Run (Step fun _ => true) (start ⟨fun _ => none, 0, []⟩) _ _ :=
    .cons (a := .receive) (.receive rfl) <| .cons (a := .check) (.checked rfl rfl) <|
    .cons (a := .copy ⟨11, none⟩ sOk) (.copy rfl (fun _ => rfl) (by decide)) <|
    .cons (a := .resetComp) (.resetComp rfl) <| .cons (a := .setExec 0 10) (.setExec rfl) <|
    .cons (a := .wait) (.waiting rfl rfl) <| .cons (a := .poll) (.taken rfl rfl) <|
    .cons (a := .run) (.run rfl) <| .cons (a := .turn sOk 100) (.turn rfl) <|
    .cons (a := .receive) (.receive rfl) .nil
  exact ⟨_, _, r, fun h => h ⟨rfl, rfl⟩⟩

end Bcap.Handshake

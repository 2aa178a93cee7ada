import DensoRobot.Common.Event
import DensoRobot.Bcap.Send
import DensoRobot.Bcap.Receiver

open HRESULT

namespace Bcap

-- The receiving thread of a server and its executing thread, which access the last received packet
-- and the last sent one in turn. Each step is one of a single thread.
namespace Handshake

inductive Thread
  | recv
  | exec
  deriving DecidableEq

-- Where `recv_thread` is, with the times and the turns of the loop in `receive_execute`.
inductive Recv
  | idle
  -- A packet was received. Over COM, it is compared with the last sent one.
  | received
  -- wait_event(&bcap_param->comp_evt, 0)
  | checking
  | ready
  -- Before `reset_event`, and before `set_event`.
  | copied (hr : HRESULT)
  | reset (hr : HRESULT)
  | turning (start execTimeout : Nat) (turns : List WaitTurn)
  -- wait_event(&bcap_param->comp_evt, tmp_param->wdt_interval)
  | sleeping (start execTimeout : Nat) (turns : List WaitTurn)
  | responding (start execTimeout : Nat) (turns : List WaitTurn)
  | leaving
  -- exit_thread(bcap_param->sub_thread);
  | joining
  | closing

-- Where `exec_thread` is.
inductive Exec
  -- wait_event_multi(evt, 2, INFINITE, 0)
  | polling
  | sleeping
  | taken
  -- bcap_callfunc(&bcap_param->last_recv, &bcap_param->last_send);
  | running
  | finished
  | ended
  deriving DecidableEq

-- After `receive_execute` has returned `hr`.
def Recv.returned (hr : HRESULT) : Recv :=
  if Failed hr ∧ hr ≠ eTimeout then .leaving else .idle

def Recv.phase : Recv → Receiver.Phase
  | .idle | .received | .checking | .ready              => .idle
  | .copied hr | .reset hr                              =>
    if Succeeded hr then .waiting else if Failed hr ∧ hr ≠ eTimeout then .leaving else .idle
  | .turning _ _ _ | .sleeping _ _ _ | .responding _ _ _ => .waiting
  | .leaving | .joining | .closing                      => .leaving

-- Whether a request is handed over to the executing thread.
def Recv.handing : Recv → Bool
  | .copied _ | .reset _ => true
  | _                    => false

-- Whether the thread is in `wait_event`.
def Recv.waits : Recv → Bool
  | .checking | .sleeping _ _ _ => true
  | _                           => false

-- Where the thread goes on after `wait_event` has not timed out.
def Recv.woken : Recv → Recv
  | .sleeping start execTimeout turns => .responding start execTimeout (turns ++ [⟨sOk, sOk, 0⟩])
  | _                                 => .ready

-- Whether the thread accesses the packets.
def Recv.accesses (type : ConnType) : Recv → Bool
  | .received                             => type = .com
  | .ready | .responding _ _ _ | .closing => true
  | _                                     => false

end Handshake

structure Handshake where
  vector     : ObjectVector
  lastRecv   : Receiver.Request
  lastSend   : Receiver.Response
  log        : List (Entry (Int × Nat))
  execEvt    : Event Handshake.Thread
  compEvt    : Event Handshake.Thread
  -- Whether `term_sub_evt` is set.
  termSubEvt : Bool
  recv       : Handshake.Recv
  exec       : Handshake.Exec
  -- The requests that were copied to the last received packet, and those that were executed.
  accepted   : List Receiver.Request
  executed   : List Receiver.Request

namespace Handshake

-- The executing thread has begun to wait.
def start (memory : Memory VecObject) : Handshake where
  vector     := ⟨0, none, memory⟩
  lastRecv   := ⟨0, none⟩
  lastSend   := ⟨0, 0⟩
  log        := []
  execEvt    := .create false false
  compEvt    := .create true true
  termSubEvt := false
  recv       := .idle
  exec       := .polling
  accepted   := []
  executed   := []

inductive Act
  | receive
  -- `receive_execute` returns before it copies the packet.
  | refuse (hr : HRESULT)
  | check
  | busy
  | copy (p : Receiver.Request) (hr : HRESULT)
  | resetComp
  | setExec (start execTimeout : Nat)
  | wait
  | turn (bcapSend : HRESULT) (time : Nat)
  | respond (pObj : Option Nat) (bcapSend : HRESULT)
  | terminate
  | setTerm
  | join
  | poll
  | pollAgain
  | run
  | complete (result : Receiver.Response)
  | setComp
  | finish
  -- A thread wakes up after `set_event`, or without any reason.
  | wake (t : Thread)
  | stir (t : Thread)
  -- `wait_event_multi` fails.
  | fail (hr : HRESULT)

section

variable (h : Handshake)

-- The receiving thread has woken up.
def recvWoken : Handshake :=
  { h with
    compEvt := (h.compEvt.rouse .recv).take
    recv    := h.recv.woken }

def execWoken : Handshake :=
  { h with
    execEvt := (h.execEvt.rouse .exec).take
    exec    := .taken }

-- What the coarser model of the threads tells.
def toReceiver : Receiver where
  vector    := h.vector
  lastRecv  := h.lastRecv
  lastSend  := h.lastSend
  executing := h.exec ≠ .ended ∧
    (h.recv.handing ∨ h.execEvt.signal ∨ h.exec = .taken ∨ h.exec = .running)
  phase     := h.recv.phase
  log       := h.log

def Waits : Thread → Prop
  | .recv => h.recv.waits
  | .exec => h.exec = .sleeping

def woken : Thread → Handshake
  | .recv => h.recvWoken
  | .exec => h.execWoken

def evt : Thread → Event Thread
  | .recv => h.compEvt
  | .exec => h.execEvt

end

inductive Step (listed : Int → Bool) : Handshake → Act → Handshake → Prop
  | receive {h : Handshake} :
      h.recv = .idle → Step listed h .receive { h with recv := .received }
  | refuse {h : Handshake} {hr : HRESULT} :
      h.recv = .idle ∨ h.recv = .received ∨ h.recv = .ready → hr ≠ sOk →
      Step listed h (.refuse hr) { h with recv := .returned hr }
  | checked {h : Handshake} :
      h.recv = .received → h.compEvt.signal = true →
      Step listed h .check { h with compEvt := h.compEvt.take, recv := .ready }
  | checking {h : Handshake} :
      h.recv = .received → h.compEvt.signal = false →
      Step listed h .check { h with compEvt := h.compEvt.sleep .recv, recv := .checking }
  -- `E_BUSY_PROC` is sent.
  | busy {h : Handshake} :
      h.recv = .checking →
      Step listed h .busy { h with compEvt := h.compEvt.rouse .recv, recv := .returned eTimeout }
  | copy {h : Handshake} {p : Receiver.Request} {hr : HRESULT} :
      h.recv = .ready → (p.id ≠ idServiceStart → hr = sOk) →
      (p.id ∈ creatingIds → h.vector.numObject < bcapObjectMax) →
      Step listed h (.copy p hr)
        { h with lastRecv := p, recv := .copied hr, accepted := h.accepted ++ [p] }
  | resetComp {h : Handshake} {hr : HRESULT} :
      h.recv = .copied hr →
      Step listed h .resetComp { h with compEvt := h.compEvt.reset, recv := .reset hr }
  | setExec {h : Handshake} {hr : HRESULT} {start execTimeout : Nat} :
      h.recv = .reset hr →
      Step listed h (.setExec start execTimeout)
        { h with
          execEvt := h.execEvt.set
          recv    := if Succeeded hr then .turning start execTimeout [] else .returned hr }
  | waited {h : Handshake} {start execTimeout : Nat} {turns : List WaitTurn} :
      h.recv = .turning start execTimeout turns → h.compEvt.signal = true →
      Step listed h .wait
        { h with
          compEvt := h.compEvt.take
          recv    := .responding start execTimeout (turns ++ [⟨sOk, sOk, 0⟩]) }
  | waiting {h : Handshake} {start execTimeout : Nat} {turns : List WaitTurn} :
      h.recv = .turning start execTimeout turns → h.compEvt.signal = false →
      Step listed h .wait
        { h with
          compEvt := h.compEvt.sleep .recv
          recv    := .sleeping start execTimeout turns }
  -- `S_EXECUTING` is sent, and the time is checked.
  | turn {h : Handshake} {start execTimeout time : Nat} {turns : List WaitTurn}
      {bcapSend : HRESULT} :
      h.recv = .sleeping start execTimeout turns →
      Step listed h (.turn bcapSend time)
        { h with
          compEvt := h.compEvt.rouse .recv
          recv    :=
            match waitCompletion start execTimeout [⟨eTimeout, bcapSend, time⟩] with
            | none   => .turning start execTimeout (turns ++ [⟨eTimeout, bcapSend, time⟩])
            | some w => .returned w.hr }
  | respond {h : Handshake} {start execTimeout : Nat} {turns : List WaitTurn} {pObj : Option Nat}
      {bcapSend : HRESULT} {vector : ObjectVector} :
      h.recv = .responding start execTimeout turns →
      (∀ p, pObj = some p → h.vector.memory.cell p = none) →
      h.toReceiver.changeObjects pObj = .ok vector →
      Step listed h (.respond pObj bcapSend) { h with vector := vector, recv := .returned bcapSend }
  | terminate {h : Handshake} :
      h.recv = .idle → Step listed h .terminate { h with recv := .leaving }
  | setTerm {h : Handshake} :
      h.recv = .leaving → Step listed h .setTerm { h with termSubEvt := true, recv := .joining }
  | join {h : Handshake} :
      h.recv = .joining → h.exec = .ended → Step listed h .join { h with recv := .closing }
  | taken {h : Handshake} :
      h.exec = .polling → h.execEvt.signal = true →
      Step listed h .poll { h with execEvt := h.execEvt.take, exec := .taken }
  | polling {h : Handshake} :
      h.exec = .polling → h.execEvt.signal = false →
      Step listed h .poll { h with execEvt := h.execEvt.sleep .exec, exec := .sleeping }
  | pollAgain {h : Handshake} :
      h.exec = .sleeping →
      Step listed h .pollAgain { h with execEvt := h.execEvt.rouse .exec, exec := .polling }
  | run {h : Handshake} :
      h.exec = .taken →
      Step listed h .run { h with exec := .running, executed := h.executed ++ [h.lastRecv] }
  | complete {h : Handshake} {result : Receiver.Response} :
      h.exec = .running →
      Step listed h (.complete result)
        { h with
          lastSend := Receiver.bcapCallfunc listed h.lastRecv result h.lastSend
          log      := h.log ++
            Receiver.changes h.lastRecv (Receiver.bcapCallfunc listed h.lastRecv result h.lastSend)
          exec     := .finished }
  | setComp {h : Handshake} :
      h.exec = .finished → Step listed h .setComp
        { h with compEvt := h.compEvt.set, exec := .polling }
  -- `wait_event_multi` returns that `term_sub_evt` is set.
  | finish {h : Handshake} :
      h.exec = .polling ∨ h.exec = .sleeping ∨ h.exec = .taken → h.termSubEvt = true →
      Step listed h .finish { h with exec := .ended }
  | wake {h : Handshake} {t : Thread} :
      h.Waits t → t ∉ (h.evt t).asleep → Step listed h (.wake t) (h.woken t)
  | stir {h : Handshake} {t : Thread} :
      h.Waits t → t ∈ (h.evt t).asleep → Step listed h (.stir t) (h.woken t)
  | fail {h : Handshake} {hr : HRESULT} :
      h.exec = .polling →
      Step listed h (.fail hr)
        { h with lastSend := { h.lastSend with id := hr }, exec := .finished }

end Handshake
end Bcap

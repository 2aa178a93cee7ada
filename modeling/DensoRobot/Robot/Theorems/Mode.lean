import DensoRobot.Robot.Mode
import DensoRobot.Lib.Run

open HRESULT Bcap

namespace Robot

-- A call of `DensoRobotCore::ChangeMode` together with the results of its commands.
structure Call where
  mode    : Int
  service : Bool
  reply   : Reply
  giveArm : Succeeded (reply .giveArm)

inductive Core.Step : Core → Call → Core → Prop
  | intro : Step core call (core.changeMode call.reply call.mode call.service).2

-- The mode, the arm and the settings of the connection belong together, where `s` are the settings
-- from before slave mode.
structure Consistent (s : Service) (core : Core) : Prop where
  mode   : core.mode = core.robot.controller.slaveMode
  arm    : core.robot.controller.armHeld ↔ core.mode ≠ 0
  slave  : core.mode ≠ 0 →
    core.robot.service.timeout =
      (if syncWait core.mode then slvmodeTimeoutSync else slvmodeTimeoutAsync) ∧
    core.robot.service.retry = bCapSetRetry s.type 3
  normal : core.mode = 0 →
    core.robot.service.timeout = s.timeout ∧ core.robot.service.retry = s.retry

-- The robot remembers the settings while it is in slave mode.
structure Remembers (s : Service) (core : Core) : Prop extends Consistent s core where
  type : core.robot.service.type = s.type
  mem  : core.mode ≠ 0 → core.robot.memTimeout = s.timeout ∧ core.robot.memRetry = s.retry

def Supported (core : Core) : Prop :=
  core.ctrlType = 8 ∨ core.ctrlType = 9

-- The commands that precede `slvChangeMode` all succeed.
def Prepares (rob : DensoRobot) (reply : Reply) : Prop :=
  Succeeded (reply <| .slvSendFormat rob.sendfmt) ∧
  Succeeded (reply <| .slvRecvFormat rob.recvfmt rob.tsfmt) ∧
  Succeeded (reply <| .takeArm rob.armGroup)

-- Slave mode is entered completely or not tried, and it is left without an error and not for
-- another slave mode.
def Orderly (core : Core) (call : Call) : Prop :=
  if core.mode = 0 then
    Supported core → call.mode ≠ 0 → Prepares core.robot call.reply →
      Succeeded (call.reply <| .slvChangeMode call.mode)
  else
    Supported core ∧ call.mode = 0 ∧ Succeeded (call.reply <| .slvChangeMode 0)

namespace Core

variable {core : Core} {call : Call} {s : Service}

theorem changeMode_unsupported (h : ¬Supported core) (reply : Reply) (mode : Int) (service : Bool) :
    (core.changeMode reply mode service).2 = { core with mode := 0, serving := service } := by
  have h : ¬(core.ctrlType = 8 ∨ core.ctrlType = 9) := h
  simp [changeMode, h, failed_eFail.not_succeeded]

-- What a call with a supported controller makes of the mode and the robot.
theorem changeMode_supported (h : Supported core) (reply : Reply) (mode : Int) (service : Bool) :
    let r := core.robot.changeMode reply core.mode mode
    let core' := (core.changeMode reply mode service).2
    core'.mode = (if Succeeded r.1 then mode else 0) ∧ core'.robot = r.2 := by
  have h : core.ctrlType = 8 ∨ core.ctrlType = 9 := h
  simp [changeMode, h]

end Core

namespace Controller

variable {c : Controller} {reply : Reply} {cmd : Command}

theorem exec_ok (h : Succeeded (reply cmd)) : (c.exec reply cmd).2 = c.effect cmd :=
  if_pos h

theorem exec_failed (h : Failed (reply cmd)) : (c.exec reply cmd).2 = c :=
  if_neg h.not_succeeded

end Controller

namespace DensoRobot

open Controller

variable {rob : DensoRobot} {reply : Reply}

@[simp]
theorem exec_fst (cmd : Command) : (rob.exec reply cmd).1 = reply cmd :=
  rfl

@[simp]
theorem exec_snd (cmd : Command) :
    (rob.exec reply cmd).2 = { rob with controller := (rob.controller.exec reply cmd).2 } :=
  rfl

-- Before the arm is taken, the commands leave no trace.
theorem changeMode_unprepared (h : ¬Prepares rob reply) (hm : mode ≠ 0) :
    Failed (rob.changeMode reply 0 mode).1 ∧ (rob.changeMode reply 0 mode).2 = rob := by
  simp only [changeMode, hm, ne_eq, not_false_eq_true, if_true, exec_fst, exec_snd]
  by_cases hs : Failed (reply <| .slvSendFormat rob.sendfmt)
  case pos => simp [hs, exec_failed]
  simp only [hs, if_false, exec_ok (not_failed_iff.mp hs), Controller.effect]
  by_cases hr : Failed (reply <| .slvRecvFormat rob.recvfmt rob.tsfmt)
  case pos => simp [hr, exec_failed]
  simp only [hr, if_false, exec_ok (not_failed_iff.mp hr), Controller.effect]
  have ht : Failed (reply <| .takeArm rob.armGroup) := by
    by_contra ht
    exact h ⟨not_failed_iff.mp hs, not_failed_iff.mp hr, not_failed_iff.mp ht⟩
  simp [ht, exec_failed]

-- With the arm taken, all depends on `slvChangeMode`.
theorem changeMode_prepared (h : Prepares rob reply) (hm : mode ≠ 0) :
    rob.changeMode reply 0 mode =
      let (hr, rob) := { rob with controller := { rob.controller with armHeld := true } }.exec reply
        (.slvChangeMode mode)
      (hr, if Failed hr then rob else rob.rememberService.slaveService mode) := by
  have ⟨hs, hr, ht⟩ := h
  simp only [changeMode, hm, ne_eq, not_false_eq_true, if_true, exec_fst, exec_snd, hs.not_failed,
    hr.not_failed, ht.not_failed, if_false, exec_ok hs, exec_ok hr, exec_ok ht, Controller.effect]
  by_cases hc : Failed (reply <| .slvChangeMode mode) <;> simp [hc]

theorem changeMode_left (hc : curMode ≠ 0) (hg : Succeeded (reply .giveArm)) :
    rob.changeMode reply curMode mode =
      let (hr, rob) := rob.restoreService.exec reply (.slvChangeMode mode)
      (hr, { rob with controller := { rob.controller with armHeld := false } }) := by
  simp only [changeMode, hc, if_false, exec_fst, exec_snd, exec_ok hg, Controller.effect]

end DensoRobot

namespace Core

variable {core : Core} (call : Call) {s : Service}

-- The core after a call.
abbrev after (core : Core) (call : Call) : Core :=
  (core.changeMode call.reply call.mode call.service).2

-- From mode 0 a call that is not prepared changes nothing.
theorem after_idle (h0 : core.mode = 0)
    (h : Supported core → call.mode ≠ 0 → ¬Prepares core.robot call.reply) :
    (core.after call).mode = 0 ∧ (core.after call).robot = core.robot := by
  by_cases hs : Supported core
  case neg => simp [after, changeMode_unsupported hs]
  have ⟨hm, hr⟩ := changeMode_supported hs call.reply call.mode call.service
  by_cases hc : call.mode = 0
  case pos =>
    have he : core.robot.changeMode call.reply core.mode call.mode = (sOk, core.robot) := by
      simp [DensoRobot.changeMode, h0, hc]
    rw [he, hc, ite_self] at hm
    exact ⟨hc ▸ hm, hr.trans <| congrArg (·.2) he⟩
  have ⟨hf, he⟩ := DensoRobot.changeMode_unprepared (h hs hc) hc
  rw [h0] at hm hr
  exact ⟨hm.trans (if_neg hf.not_succeeded), hr.trans he⟩

theorem after_entered (h0 : core.mode = 0) (hs : Supported core) (hc : call.mode ≠ 0)
    (hp : Prepares core.robot call.reply) (h : Succeeded (call.reply <| .slvChangeMode call.mode)) :
    (core.after call).mode = call.mode ∧
    (core.after call).robot = ({ core.robot with controller := ⟨call.mode, true⟩ } :
      DensoRobot).rememberService.slaveService call.mode := by
  have ⟨hm, hr⟩ := changeMode_supported hs call.reply call.mode call.service
  rw [h0, DensoRobot.changeMode_prepared hp hc] at hm hr
  simp only [DensoRobot.exec_fst, DensoRobot.exec_snd, Controller.exec_ok h,
    Controller.effect] at hm hr
  exact ⟨hm.trans (if_pos h), hr.trans (if_neg h.not_failed)⟩

-- The arm stays with the robot if `slvChangeMode` fails.
theorem after_stuck (h0 : core.mode = 0) (hs : Supported core) (hc : call.mode ≠ 0)
    (hp : Prepares core.robot call.reply) (h : Failed (call.reply <| .slvChangeMode call.mode)) :
    (core.after call).mode = 0 ∧ (core.after call).robot.controller.armHeld = true := by
  have ⟨hm, hr⟩ := changeMode_supported hs call.reply call.mode call.service
  rw [h0, DensoRobot.changeMode_prepared hp hc] at hm hr
  simp only [DensoRobot.exec_fst, DensoRobot.exec_snd, Controller.exec_failed h] at hm hr
  exact ⟨hm.trans (if_neg h.not_succeeded), by rw [hr, if_pos h]⟩

theorem after_left (h0 : core.mode ≠ 0) (hs : Supported core) :
    let hr := call.reply (.slvChangeMode call.mode)
    (core.after call).mode = (if Succeeded hr then call.mode else 0) ∧
    (core.after call).robot = { core.robot.restoreService with
      controller :=
        ⟨if Succeeded hr then call.mode else core.robot.controller.slaveMode, false⟩ } := by
  have ⟨hm, hr⟩ := changeMode_supported hs call.reply call.mode call.service
  rw [DensoRobot.changeMode_left h0 call.giveArm] at hm hr
  refine ⟨hm, hr.trans ?_⟩
  by_cases h : Succeeded (call.reply <| .slvChangeMode call.mode)
  case pos => simp [h, Controller.exec_ok h, Controller.effect]
  case neg =>
    have hf : Failed (call.reply <| .slvChangeMode call.mode) := Int.not_le.mp h
    simp [h, Controller.exec_failed hf]
    rfl

end Core

theorem Remembers.idle {core core' : Core} (i : Remembers s core) (h0 : core.mode = 0)
    (hm : core'.mode = 0) (hr : core'.robot = core.robot) : Remembers s core' where
  mode   := by rw [hm, hr, ← i.mode, h0]
  arm    := by rw [hm, hr, i.arm, h0]
  slave  := (absurd hm ·)
  normal := fun _ => hr ▸ i.normal h0
  type   := hr ▸ i.type
  mem    := (absurd hm ·)

theorem Remembers.entered {core core' : Core} (i : Remembers s core) (h0 : core.mode = 0)
    (hm : core'.mode = mode) (hn : mode ≠ 0)
    (hr : core'.robot = ({ core.robot with controller := ⟨mode, true⟩ } :
      DensoRobot).rememberService.slaveService mode) : Remembers s core' where
  mode   := by rw [hm, hr]; rfl
  arm    := by rw [hm, hr]; simp [DensoRobot.slaveService, DensoRobot.rememberService, hn]
  slave  := fun _ => by
    rw [hr, hm]
    exact ⟨rfl, congrArg (bCapSetRetry · 3) i.type⟩
  normal := fun h => absurd (hm.symm.trans h) hn
  type   := by rw [hr]; exact i.type
  mem    := fun _ => by rw [hr]; exact i.normal h0

theorem Remembers.left {core core' : Core} (i : Remembers s core) (h0 : core.mode ≠ 0)
    (hm : core'.mode = 0)
    (hr : core'.robot = { core.robot.restoreService with controller := ⟨0, false⟩ }) :
    Remembers s core' where
  mode   := by rw [hm, hr]
  arm    := by rw [hm, hr]; simp
  slave  := (absurd hm ·)
  normal := fun _ => by
    have ⟨ht, hn⟩ := i.mem h0
    rw [hr]
    refine ⟨ht, ?_⟩
    calc bCapSetRetry core.robot.service.type core.robot.memRetry
      _ = bCapSetRetry s.type s.retry := by rw [i.type, hn]
      _ = s.retry                     := s.retry_ok
  type   := by rw [hr]; exact i.type
  mem    := (absurd hm ·)

-- Consistency is kept by the orderly calls and by no other.
theorem remembers_exact : Exact Core.Step (Remembers s) (Consistent s) Orderly where
  good := Remembers.toConsistent
  keep := by
    rintro core call _ ⟨⟩ ok i
    by_cases h0 : core.mode = 0
    case neg =>
      rw [Orderly, if_neg h0] at ok
      have ⟨hs, hc, h⟩ := ok
      have ⟨hm, hr⟩ := core.after_left call h0 hs
      rw [hc, if_pos h] at hm hr
      exact i.left h0 hm hr
    by_cases hp : Supported core ∧ call.mode ≠ 0 ∧ Prepares core.robot call.reply
    case neg =>
      have ⟨hm, hr⟩ := core.after_idle call h0 (fun hs hc h => hp ⟨hs, hc, h⟩)
      exact i.idle h0 hm hr
    case pos =>
      have ⟨hs, hc, hp⟩ := hp
      rw [Orderly, if_pos h0] at ok
      have ⟨hm, hr⟩ := core.after_entered call h0 hs hc hp (ok hs hc hp)
      exact i.entered h0 hm hc hr
  need := by
    rintro core call _ ⟨⟩ i g
    rw [Orderly]
    split
    case isTrue h0 =>
      intro hs hc hp
      by_contra h
      have ⟨hm, ha⟩ := core.after_stuck call h0 hs hc hp (Int.not_le.mp h)
      exact g.arm.mp ha hm
    case isFalse h0 =>
      have hs : Supported core := by
        by_contra hs
        have hm := g.mode
        rw [core.changeMode_unsupported hs] at hm
        exact h0 (i.mode.trans hm.symm)
      have ⟨hm, hr⟩ := core.after_left call h0 hs
      have hn : (core.after call).mode = 0 := by
        by_contra hn
        have := g.arm.mpr hn
        rw [hr] at this
        contradiction
      by_cases h : Succeeded (call.reply <| .slvChangeMode call.mode)
      case neg =>
        have := g.mode
        rw [hn, hr, if_neg h] at this
        exact absurd (i.mode.trans this.symm) h0
      case pos =>
        have hc : call.mode = 0 := by rw [← hn, hm, if_pos h]
        exact ⟨hs, hc, hc ▸ h⟩

-- In a run of calls from mode 0 with the arm not held, mode, arm and settings are consistent after
-- each call iff all calls are orderly.
theorem consistent_iff {core core' : Core} (h0 : core.mode = 0)
    (hc : core.robot.controller = ⟨0, false⟩) (r : Run Core.Step core steps core') :
    Always (Consistent core.robot.service) steps core' ↔ ∀ p ∈ steps, Orderly p.1 p.2 :=
  remembers_exact.always_iff r {
    mode   := by rw [h0, hc]
    arm    := by simp [h0, hc]
    slave  := (absurd h0 ·)
    normal := fun _ => ⟨rfl, rfl⟩
    type   := rfl
    mem    := (absurd h0 ·)
  }

-- A core in mode 0 whose robot is connected over TCP.
def restingCore : Core where
  ctrlType := 8
  mode     := 0
  serving  := true
  robot    := {
    armGroup   := 0
    sendfmt    := 0x0120
    recvfmt    := 0x0124
    tsfmt      := 0
    memTimeout := 0
    memRetry   := 0
    service    := ⟨.tcp, 3000, 1, rfl⟩
    controller := ⟨0, false⟩
  }

-- A call whose commands all succeed.
def smoothCall (mode : Int) : Call where
  mode    := mode
  service := true
  reply   := fun _ => sOk
  giveArm := succeeded_sOk

-- A call for slave mode with only `slvChangeMode` failing.
def refusedCall : Call where
  mode    := 0x0101
  service := false
  reply   := fun | .slvChangeMode _ => eFail | _ => sOk
  giveArm := succeeded_sOk

theorem smoothCalls_consistent :
    let core₁ := restingCore.after (smoothCall 0x0101)
    let core₂ := core₁.after (smoothCall 0)
    Always (Consistent restingCore.robot.service)
      [(restingCore, smoothCall 0x0101), (core₁, smoothCall 0)] core₂ :=
  consistent_iff rfl rfl (.cons .intro <| .cons .intro .nil) |>.mpr <| by
    simp only [List.forall_mem_cons]
    refine ⟨fun _ _ _ => succeeded_sOk, ?_, by simp⟩
    exact (if_neg (by decide)).mpr ⟨.inl rfl, rfl, succeeded_sOk⟩

theorem refusedCall_inconsistent :
    Run Core.Step restingCore [(restingCore, refusedCall)] (restingCore.after refusedCall) ∧
    ¬Always (Consistent restingCore.robot.service) [(restingCore, refusedCall)]
      (restingCore.after refusedCall) := by
  refine ⟨.cons .intro .nil, fun h => ?_⟩
  have := h.2.arm.mp (by decide)
  exact this (by decide)

end Robot

import Ruscker.Lib.Hysteresis
import Ruscker.Scaler.IdleStops

/-!
# Scaling up after scaling down

A tick decrements the cooldown of each spec that it comes to, counts the ticks in a row in which
the spec was saturated, spawns when they are enough, and starts the cooldown anew when the
scale-down pass has stopped a replica.  Recycling a replica by its age starts no cooldown.  Beside
the loop stands a record, for one spec, of what each tick has seen and done.
-/

namespace Ruscker.Scaler.Flaps

open Machines Machines.Machine Hysteresis IdleStops

variable {ι κ : Type*}

/-! ## What the ticks see -/

section Observing

variable [Floats] (node : Proxy.Calls.Node κ) (scaling : Scaling) (spec : Str)

/-- The scale-up pass finds the spec saturated. -/
def isSaturated (settings : Settings) (snap : List (Replica ι)) : Bool :=
  decide (settings.effectiveMinReplicas.val ≤ snap.length) &&
    decide (snap.length < settings.effectiveMaxReplicas.val) &&
    scaleUpTriggered scaling settings snap

/-- Whether the spec is cooling, if its scale passes come now. -/
def scalesNow (s : IdleStops.State ι κ) (a : Answer ι) : Option Bool :=
  s.tick.bind fun t => match t.specs, t.stage with
    | x :: _, .looking =>
      if x = spec ∧ isScaled (node.settings x) = true ∧ (lifetimeReapCandidates
          (node.settings x) (snapshot node s x a) s.base.now).isEmpty = true then
        some (decide (0 < s.cooldown x))
      else none
    | x :: _, .recounting cooling => if x = spec then some cooling else none
    | _, _ => none

/-- The scale-down pass has a replica to stop. -/
def stops : Stage ι → Bool
  | .stopping (_ :: _) (.cool _) => true
  | _ => false

/-- The scale-down pass of the spec stops a replica now. -/
def dropsNow (s : IdleStops.State ι κ) (a : Answer ι) : Bool :=
  s.tick.any fun t => decide (t.specs.head? = some spec) && stops t.stage && a.ok

def isSpawn : Verdict ι → Bool
  | .spawn _ => true
  | _ => false

/-- The loop, the ticks that have begun, and what they have seen of the spec. -/
structure State (ι κ : Type*) where
  base : IdleStops.State ι κ
  ticks : Nat
  seen : Nat → Seen

def start (rows : Registry ι) : State ι κ := ⟨IdleStops.boot rows, 0, fun _ => .blank⟩

/-- The record of the tick that runs is amended. -/
def amend (ticks : Nat) (seen : Nat → Seen) (f : Seen → Seen) : Nat → Seen :=
  Function.update seen (ticks - 1) (f (seen (ticks - 1)))

def looked (hot fired : Bool) (old : Seen) : Seen :=
  { old with hot, fired := old.fired || fired }

def dropped (old : Seen) : Seen := { old with released := true }

/-- A hot tick finds the spec saturated and outside the cooldown; it fires when it spawns then. -/
def observe (s : State ι κ) (a : Answer ι) : Nat → Seen :=
  match scalesNow node spec s.base a with
  | some cooling =>
    let saturated := isSaturated scaling (node.settings spec) (snapshot node s.base spec a)
    amend s.ticks s.seen (looked (saturated && !cooling)
      (saturated && (verdict node scaling s.base a).any isSpawn))
  | none => if dropsNow spec s.base a then amend s.ticks s.seen dropped else s.seen

variable [DecidableEq ι] [DecidableEq κ]

def machine : Machine (State ι κ) (IdleStops.Event ι κ) where
  step s e := (IdleStops.step node scaling s.base e).map fun base =>
    match e with
    | .call _ => { s with base }
    | .tick _ => { s with base, ticks := s.ticks + 1 }
    | .scale a => { s with base, seen := observe node scaling spec s a }

/-- The catalog that a tick goes through lists the spec once. -/
def ListsOnce (_ : State ι κ) : IdleStops.Event ι κ → Prop
  | .tick specs => specs.count spec = 1
  | _ => True

instance (s : State ι κ) (e : IdleStops.Event ι κ) : Decidable (ListsOnce spec s e) :=
  match e with
  | .tick specs => instDecidableEqNat (specs.count spec) 1
  | .call _ => instDecidableTrue
  | .scale _ => instDecidableTrue

end Observing

/-! ## The loop as one spec sees it -/

/-- Where the loop is with the spec: not to come to it in this tick, to come to it, past its
lifetime reap, spawning, or stopping what it scales down. -/
inductive Position where
  | away
  | due
  | recount (cooling : Bool)
  | growing
  | dropping (stoppedAny : Bool)

def sequelPosition : Sequel → Position
  | .recount cooling => .recount cooling
  | .cool stoppedAny => .dropping stoppedAny

def stagePosition : Stage ι → Position
  | .looking => .due
  | .recounting cooling => .recount cooling
  | .growing _ | .awaiting _ _ => .growing
  | .stopping _ sequel | .cleaning _ _ _ _ sequel => sequelPosition sequel

def position (spec : Str) : Option (Tick ι) → Position
  | some ⟨x :: rest, stage⟩ =>
    if x = spec then stagePosition stage else if spec ∈ rest then .due else .away
  | _ => .away

theorem position_next (spec : Str) (rest : List Str) :
    position spec (some ⟨rest, .looking⟩ : Option (Tick ι)) =
      if spec ∈ rest then .due else .away := by
  cases rest with
  | nil => rfl
  | cons x rest =>
    by_cases hx : x = spec
    · simp [position, stagePosition, hx]
    · simp [position, hx, Ne.symm hx]

structure Loop where
  position : Position
  ticks : Nat
  saturated : Nat
  cooldown : Nat
  seen : Nat → Seen

def loopOf (spec : Str) (b : IdleStops.State ι κ) (ticks : Nat) (seen : Nat → Seen) : Loop :=
  ⟨position spec b.tick, ticks, b.saturationTicks spec, b.cooldown spec, seen⟩

namespace Loop

variable (l : Loop) {grace cooldown : Nat}

/-- The counters as they will be when the loop is done with what it does. -/
def ledger (cooldown : Nat) : Ledger :=
  match l.position with
  | .away => ⟨l.ticks, l.saturated, l.cooldown, l.seen⟩
  | .due => ⟨l.ticks - 1, l.saturated, l.cooldown, l.seen⟩
  | .recount cooling =>
    ⟨l.ticks - 1, l.saturated, if cooling then l.cooldown + 1 else l.cooldown, l.seen⟩
  | .growing => ⟨l.ticks, 0, l.cooldown, l.seen⟩
  | .dropping stoppedAny =>
    ⟨l.ticks, 0, if stoppedAny && decide (0 < cooldown) then cooldown else l.cooldown, l.seen⟩

/-- What holds wherever the loop is. -/
structure Kept (grace cooldown : Nat) (scaled : Bool) : Prop where
  sound : Sound grace cooldown (l.ledger cooldown)
  begun : l.position ≠ .away → 0 < l.ticks
  unscaled : scaled = false → l.saturated = 0
  recount : ∀ cooling, l.position = .recount cooling →
    scaled = true ∧ (cooling = false → l.cooldown = 0)
  dropping : ∀ stoppedAny, l.position = .dropping stoppedAny → l.saturated = 0

/-- A tick begins. -/
def begin : Loop := { l with position := .due, ticks := l.ticks + 1 }

def skip : Loop := { l with position := .away }

/-- The cooldown is read and decremented. -/
def reap : Loop :=
  { l with position := .recount (decide (0 < l.cooldown)), cooldown := l.cooldown - 1 }

/-- The scale passes spawn, and are hot just when they do so for the load. -/
def grow (hot : Bool) : Loop :=
  { l with position := .growing, seen := amend l.ticks l.seen (looked hot hot) }

def hold (hot : Bool) : Loop :=
  { l with
    position := .away
    saturated := if hot then l.saturated + 1 else 0
    seen := amend l.ticks l.seen (looked hot false) }

def shrink : Loop :=
  { l with
    position := .dropping false
    saturated := 0
    seen := amend l.ticks l.seen (looked false false) }

def drop : Loop :=
  { l with position := .dropping true, seen := amend l.ticks l.seen dropped }

def grown : Loop := { l with position := .away, saturated := 0 }

def arm (cooldown : Nat) (stoppedAny : Bool) : Loop :=
  { l with
    position := .away
    cooldown := if stoppedAny && decide (0 < cooldown) then cooldown else l.cooldown }

namespace Kept

variable {l} {scaled : Bool} (h : l.Kept grace cooldown scaled)
include h

/-- Wherever the loop is with the spec, a tick of it has begun. -/
theorem ticks_pos {p : Position} (hpos : l.position = p) (hne : p ≠ .away) : 0 < l.ticks := by
  subst hpos
  exact h.begun hne

theorem begin (hpos : l.position = .away) : l.begin.Kept grace cooldown scaled where
  sound := by
    have hsound := h.sound
    rw [ledger, hpos] at hsound
    exact hsound
  begun := fun _ => Nat.succ_pos _
  unscaled := h.unscaled
  recount := nofun
  dropping := nofun

theorem skip (hpos : l.position = .due) (hscaled : scaled = false) :
    l.skip.Kept grace cooldown scaled where
  sound := by
    have hsound := h.sound
    rw [ledger, hpos] at hsound
    have hskip := hsound.skip (h.unscaled hscaled)
    have hticks : l.ticks - 1 + 1 = l.ticks :=
      Nat.sub_add_cancel (h.ticks_pos hpos nofun)
    unfold Ledger.skip at hskip
    dsimp only at hskip
    rw [hticks] at hskip
    exact hskip
  begun := fun hne => absurd rfl hne
  unscaled := h.unscaled
  recount := nofun
  dropping := nofun

theorem reap (hpos : l.position = .due) (hscaled : scaled = true) :
    l.reap.Kept grace cooldown scaled where
  sound := by
    have hsound := h.sound
    rw [ledger, hpos] at hsound
    have hcool : (if decide (0 < l.cooldown) = true then l.cooldown - 1 + 1 else l.cooldown - 1) =
        l.cooldown := by
      split
      · next hpos => exact Nat.sub_add_cancel (of_decide_eq_true hpos)
      · next hzero =>
        simp only [decide_eq_true_eq] at hzero
        omega
    show Sound grace cooldown ⟨l.ticks - 1, l.saturated,
      if decide (0 < l.cooldown) = true then l.cooldown - 1 + 1 else l.cooldown - 1, l.seen⟩
    rw [hcool]
    exact hsound
  begun := fun _ => h.ticks_pos hpos nofun
  unscaled := h.unscaled
  recount := by
    intro cooling hcooling
    refine ⟨hscaled, ?_⟩
    rintro rfl
    have hzero : ¬ 0 < l.cooldown := of_decide_eq_false (Position.recount.inj hcooling)
    show l.cooldown - 1 = 0
    omega
  dropping := nofun

/-- The scale passes look at the load. -/
theorem look {cooling : Bool} (hot fired : Bool) (hpos : l.position = .recount cooling)
    (hhot : hot = true → cooling = false)
    (hfired : fired = true → hot = true ∧ grace ≤ l.saturated + 1) :
    Sound grace cooldown ⟨l.ticks, if hot && !fired then l.saturated + 1 else 0, l.cooldown,
      amend l.ticks l.seen (looked hot fired)⟩ := by
  have hsound := h.sound
  rw [ledger, hpos] at hsound
  have hticks : l.ticks - 1 + 1 = l.ticks :=
    Nat.sub_add_cancel (h.ticks_pos hpos nofun)
  have hblank := hsound.blank (l.ticks - 1) (Nat.le_refl _)
  have hlook := hsound.look hot fired (fun hishot => by
    obtain rfl := hhot hishot
    exact (h.recount false hpos).2 rfl) hfired
  have hcool : (if cooling = true then l.cooldown + 1 else l.cooldown) - 1 = l.cooldown := by
    split
    · rfl
    · next hnot =>
      rw [(h.recount cooling hpos).2 (Bool.eq_false_of_not_eq_true hnot)]
  have hseen : amend l.ticks l.seen (looked hot fired) =
      Function.update l.seen (l.ticks - 1) ⟨hot, fired, false⟩ := by
    unfold amend
    rw [show l.seen (l.ticks - 1) = .blank from hblank]
    rfl
  unfold Ledger.look at hlook
  dsimp only at hlook
  rw [hticks, hcool] at hlook
  rw [hseen]
  exact hlook

theorem grow {cooling : Bool} (hot : Bool) (hpos : l.position = .recount cooling)
    (hhot : hot = true → cooling = false ∧ grace ≤ l.saturated + 1) :
    (l.grow hot).Kept grace cooldown scaled where
  sound := by
    have hlook := h.look hot hot hpos (fun hishot => (hhot hishot).1)
      fun hishot => ⟨hishot, (hhot hishot).2⟩
    rw [Bool.and_not_self] at hlook
    exact hlook
  begun := fun _ => h.ticks_pos hpos nofun
  unscaled := h.unscaled
  recount := nofun
  dropping := nofun

theorem hold {cooling : Bool} (hot : Bool) (hpos : l.position = .recount cooling)
    (hhot : hot = true → cooling = false) : (l.hold hot).Kept grace cooldown scaled where
  sound := by
    have hlook := h.look hot false hpos hhot nofun
    rw [Bool.not_false, Bool.and_true] at hlook
    exact hlook
  begun := fun hne => absurd rfl hne
  unscaled := by
    intro hscaled
    rw [(h.recount cooling hpos).1] at hscaled
    cases hscaled
  recount := nofun
  dropping := nofun

theorem shrink {cooling : Bool} (hpos : l.position = .recount cooling) :
    l.shrink.Kept grace cooldown scaled where
  sound := h.look false false hpos nofun nofun
  begun := fun _ => h.ticks_pos hpos nofun
  unscaled := fun _ => rfl
  recount := nofun
  dropping := fun _ _ => rfl

theorem drop {stoppedAny : Bool} (hpos : l.position = .dropping stoppedAny) :
    l.drop.Kept grace cooldown scaled where
  sound := by
    have hsound := h.sound
    rw [ledger, hpos] at hsound
    have hrelease := hsound.release (h.ticks_pos hpos nofun) rfl
    have hcool : (if 0 < cooldown then cooldown
        else if (stoppedAny && decide (0 < cooldown)) = true then cooldown else l.cooldown) =
        if (true && decide (0 < cooldown)) = true then cooldown else l.cooldown := by
      by_cases hzero : 0 < cooldown
      · simp [hzero]
      · simp [hzero]
    unfold Ledger.release at hrelease
    dsimp only at hrelease
    rw [hcool] at hrelease
    exact hrelease
  begun := fun _ => h.ticks_pos hpos nofun
  unscaled := h.unscaled
  recount := nofun
  dropping := fun _ _ => h.dropping stoppedAny hpos

theorem grown (hpos : l.position = .growing) : l.grown.Kept grace cooldown scaled where
  sound := by
    have hsound := h.sound
    rw [ledger, hpos] at hsound
    exact hsound
  begun := fun hne => absurd rfl hne
  unscaled := fun _ => rfl
  recount := nofun
  dropping := nofun

theorem arm {stoppedAny : Bool} (hpos : l.position = .dropping stoppedAny) :
    (l.arm cooldown stoppedAny).Kept grace cooldown scaled where
  sound := by
    have hsound := h.sound
    rw [ledger, hpos] at hsound
    show Sound grace cooldown ⟨l.ticks, l.saturated, _, l.seen⟩
    rw [h.dropping stoppedAny hpos]
    exact hsound
  begun := fun hne => absurd rfl hne
  unscaled := h.unscaled
  recount := nofun
  dropping := nofun

end Kept

theorem Kept.spaced {l : Loop} {scaled : Bool} (h : l.Kept grace cooldown scaled) :
    Spaced grace cooldown l.seen := by
  have hseen : (l.ledger cooldown).seen = l.seen := by
    unfold ledger
    split <;> rfl
  rw [← hseen]
  exact h.sound.spaced

end Loop

/-! ## Steps of the loop -/

section Steps

variable [Floats] {node : Proxy.Calls.Node κ} {scaling : Scaling} {spec x : Str} {rest : List Str}
  {stage : Stage ι} {b b' : IdleStops.State ι κ} {s s' : State ι κ} {a : Answer ι}

/-- What the scale passes can decide on, and on which loads. -/
theorem scalePasses_cases (scaling : Scaling) (settings : Settings) (snap : List (Replica ι))
    (idleTicks : ι → Nat) (saturated : Nat) (cooling : Bool) :
    let v := scalePasses scaling settings snap idleTicks saturated cooling
    (isSaturated scaling settings snap = false ∧
        ((∃ n, v = .spawn n) ∨ ∃ idle, v = .drop idle)) ∨
      (isSaturated scaling settings snap = true ∧
        ((cooling = true ∧ v = .hold 0) ∨
          (cooling = false ∧ scaling.spawnAfterSaturatedTicks ≤ saturated + 1 ∧ v = .spawn 1) ∨
          (cooling = false ∧ v = .hold (saturated + 1)))) := by
  dsimp only
  unfold scalePasses isSaturated
  dsimp only
  split
  · next hbelow =>
    have hnot : ¬ settings.effectiveMinReplicas.val ≤ snap.length := Nat.not_le.mpr hbelow
    exact .inl ⟨by simp [hnot], .inl ⟨_, rfl⟩⟩
  · next hmin =>
    have hle : settings.effectiveMinReplicas.val ≤ snap.length := Nat.not_lt.mp hmin
    rw [decide_eq_true hle, Bool.true_and]
    split
    · next htriggered =>
      refine .inr ⟨htriggered, ?_⟩
      split
      · next hcooling => exact .inl ⟨hcooling, rfl⟩
      · next hcooling =>
        have hfalse := Bool.eq_false_of_not_eq_true hcooling
        split
        · next hgrace => exact .inr (.inl ⟨hfalse, hgrace, rfl⟩)
        · exact .inr (.inr ⟨hfalse, rfl⟩)
    · next hcalm =>
      refine .inl ⟨Bool.eq_false_of_not_eq_true hcalm, .inr ?_⟩
      split
      · exact ⟨_, rfl⟩
      · exact ⟨_, rfl⟩

omit [Floats] in
theorem loop_act_of_ne (hne : x ≠ spec) (cooling : Bool) (v : Verdict ι) (ticks : Nat)
    (seen : Nat → Seen) :
    loopOf spec (b.act x rest cooling v) ticks seen =
      ⟨if spec ∈ rest then .due else .away, ticks, b.saturationTicks spec, b.cooldown spec,
        seen⟩ := by
  have hstay : ∀ stage : Stage ι, position spec (some ⟨x :: rest, stage⟩) =
      if spec ∈ rest then .due else .away := fun _ => if_neg hne
  have hupdate : ∀ (f : Str → Nat) n, Function.update f x n spec = f spec :=
    fun f n => Function.update_of_ne (Ne.symm hne) n f
  cases v with
  | reap aged => exact congrArg (Loop.mk · ticks _ _ seen) (hstay _)
  | spawn n => exact congrArg (Loop.mk · ticks _ _ seen) (hstay _)
  | hold n =>
    show Loop.mk (position spec (some ⟨rest, .looking⟩ : Option (Tick ι))) ticks
      (Function.update b.saturationTicks x n spec) (b.cooldown spec) seen = _
    rw [position_next, hupdate]
  | drop idle =>
    show Loop.mk (position spec (some ⟨x :: rest, _⟩)) ticks
      (Function.update b.saturationTicks x 0 spec) (b.cooldown spec) seen = _
    rw [hstay, hupdate]

variable [DecidableEq ι]

/-- Another spec's turn. -/
theorem loop_scale_of_ne (htick : b.tick = some ⟨x :: rest, stage⟩) (hne : x ≠ spec)
    (hstep : scale node scaling b a = some b') (ticks : Nat) (seen : Nat → Seen) :
    loopOf spec b' ticks seen = loopOf spec b ticks seen := by
  have hstay : ∀ stage : Stage ι, position spec (some ⟨x :: rest, stage⟩) =
      if spec ∈ rest then .due else .away := fun _ => if_neg hne
  have hupdate : ∀ (f : Str → Nat) n, Function.update f x n spec = f spec :=
    fun f n => Function.update_of_ne (Ne.symm hne) n f
  have hold : loopOf spec b ticks seen = ⟨if spec ∈ rest then .due else .away, ticks,
      b.saturationTicks spec, b.cooldown spec, seen⟩ := by
    rw [loopOf, htick, hstay]
  rw [hold]
  obtain ⟨t, ht, hstep⟩ := Option.bind_eq_some_iff.mp hstep
  cases htick.symm.trans ht
  cases stage with
  | looking =>
    dsimp only at hstep
    split at hstep
    · cases hstep
      rw [loop_act_of_ne hne]
      dsimp only
      rw [hupdate]
    · cases hstep
      exact congrArg (Loop.mk · ticks _ _ seen) (position_next spec rest)
  | recounting cooling =>
    obtain ⟨v, -, rfl⟩ := Option.map_eq_some_iff.mp hstep
    exact loop_act_of_ne hne cooling v ticks seen
  | growing left =>
    cases left with
    | zero =>
      cases hstep
      show Loop.mk (position spec (some ⟨rest, .looking⟩ : Option (Tick ι))) ticks
        (Function.update b.saturationTicks x 0 spec) (b.cooldown spec) seen = _
      rw [position_next, hupdate]
    | succ left =>
      cases hstep
      exact congrArg (Loop.mk · ticks _ _ seen) (hstay _)
  | awaiting call left =>
    dsimp only at hstep
    split at hstep
    · cases hstep
      exact congrArg (Loop.mk · ticks _ _ seen) (hstay _)
    · cases hstep
  | stopping todo sequel =>
    cases todo with
    | nil =>
      cases sequel with
      | recount cooling =>
        cases hstep
        exact congrArg (Loop.mk · ticks _ _ seen) (hstay _)
      | cool stoppedAny =>
        cases hstep
        have hcool : ∀ armed : Bool, (if armed = true then Function.update b.cooldown x
            (cooldownTicksForSpec scaling (node.settings x)) else b.cooldown) spec =
            b.cooldown spec := by
          intro armed
          split
          · exact hupdate _ _
          · rfl
        show Loop.mk (position spec (some ⟨rest, .looking⟩ : Option (Tick ι))) ticks
          (b.saturationTicks spec) _ seen = _
        rw [position_next]
        exact congrArg (Loop.mk _ _ _ · _) (hcool _)
    | cons v todo =>
      cases hstep
      exact congrArg (Loop.mk · ticks _ _ seen) (hstay _)
  | cleaning call r idle todo sequel =>
    dsimp only at hstep
    split at hstep
    · cases hstep
      exact congrArg (Loop.mk · ticks _ _ seen) (hstay _)
    · cases hstep

omit [Floats] [DecidableEq ι] in
theorem loop_stay (stage : Stage ι) (ticks : Nat) (seen : Nat → Seen) :
    loopOf spec (b.stay spec rest stage) ticks seen =
      ⟨stagePosition stage, ticks, b.saturationTicks spec, b.cooldown spec, seen⟩ := by
  have hown : position spec (some ⟨spec :: rest, stage⟩) = stagePosition stage := if_pos rfl
  exact congrArg (Loop.mk · ticks _ _ seen) hown

omit [Floats] [DecidableEq ι] in
theorem loop_begin (p : Proxy.Calls.Phase ι κ) (stage : Stage ι) (ticks : Nat)
    (seen : Nat → Seen) : loopOf spec (b.begin spec rest p stage) ticks seen =
      ⟨stagePosition stage, ticks, b.saturationTicks spec, b.cooldown spec, seen⟩ := by
  have hown : position spec (some ⟨spec :: rest, stage⟩) = stagePosition stage := if_pos rfl
  exact congrArg (Loop.mk · ticks _ _ seen) hown

omit [Floats] [DecidableEq ι] in
theorem loop_next (hrest : spec ∉ rest) (ticks : Nat) (seen : Nat → Seen) :
    loopOf spec (b.next rest) ticks seen =
      ⟨.away, ticks, b.saturationTicks spec, b.cooldown spec, seen⟩ := by
  have haway : position spec (some ⟨rest, .looking⟩ : Option (Tick ι)) = .away := by
    rw [position_next, if_neg hrest]
  exact congrArg (Loop.mk · ticks _ _ seen) haway

omit [DecidableEq ι] in
/-- The scale passes of the spec itself. -/
theorem kept_passes {cooling scaled : Bool} {ticks : Nat} {seen : Nat → Seen} {cooldown : Nat}
    (h : Loop.Kept ⟨.recount cooling, ticks, b.saturationTicks spec, b.cooldown spec, seen⟩
      scaling.spawnAfterSaturatedTicks cooldown scaled) (hrest : spec ∉ rest)
    (settings : Settings) (snap : List (Replica ι)) {v : Verdict ι}
    (hv : v = scalePasses scaling settings snap b.idleTicks (b.saturationTicks spec) cooling) :
    (loopOf spec (b.act spec rest cooling v) ticks (amend ticks seen
      (looked (isSaturated scaling settings snap && !cooling)
        (isSaturated scaling settings snap && isSpawn v)))).Kept
      scaling.spawnAfterSaturatedTicks cooldown scaled := by
  have hcases := scalePasses_cases scaling settings snap b.idleTicks (b.saturationTicks spec)
    cooling
  dsimp only at hcases
  rw [← hv] at hcases
  rcases hcases with ⟨hcalm, ⟨n, rfl⟩ | ⟨idle, rfl⟩⟩ |
    ⟨hload, ⟨rfl, rfl⟩ | ⟨rfl, hgrace, rfl⟩ | ⟨rfl, rfl⟩⟩
  · have hgrow := h.grow false rfl nofun
    rw [hcalm, IdleStops.State.act, loop_stay]
    exact hgrow
  · have hshrink := h.shrink rfl
    rw [hcalm, IdleStops.State.act, loop_stay]
    simp only [Function.update_self]
    exact hshrink
  · have hhold := h.hold false rfl nofun
    rw [hload, IdleStops.State.act, loop_next hrest]
    simp only [Function.update_self]
    exact hhold
  · have hgrow := h.grow true rfl fun _ => ⟨rfl, hgrace⟩
    rw [hload, IdleStops.State.act, loop_stay]
    exact hgrow
  · have hhold := h.hold true rfl fun _ => rfl
    rw [hload, IdleStops.State.act, loop_next hrest]
    simp only [Function.update_self]
    exact hhold

omit [DecidableEq ι] in
theorem observe_of_passes {ticks : Nat} {seen : Nat → Seen} {cooling : Bool} {v : Verdict ι}
    (hnow : scalesNow node spec b a = some cooling) (hv : verdict node scaling b a = some v) :
    observe node scaling spec ⟨b, ticks, seen⟩ a = amend ticks seen
      (looked (isSaturated scaling (node.settings spec) (snapshot node b spec a) && !cooling)
        (isSaturated scaling (node.settings spec) (snapshot node b spec a) && isSpawn v)) := by
  unfold observe
  dsimp only
  rw [hnow, hv]
  rfl

omit [DecidableEq ι] in
theorem observe_of_none {ticks : Nat} {seen : Nat → Seen}
    (hnow : scalesNow node spec b a = none) :
    observe node scaling spec ⟨b, ticks, seen⟩ a =
      if dropsNow spec b a then amend ticks seen dropped else seen := by
  unfold observe
  dsimp only
  rw [hnow]

/-- The spec's own turn comes. -/
theorem kept_looking {ticks : Nat} {seen : Nat → Seen} {cooldown : Nat}
    (h : (loopOf spec b ticks seen).Kept scaling.spawnAfterSaturatedTicks cooldown
      (isScaled (node.settings spec)))
    (htick : b.tick = some ⟨spec :: rest, .looking⟩) (hrest : spec ∉ rest)
    (hstep : scale node scaling b a = some b') :
    (loopOf spec b' ticks (observe node scaling spec ⟨b, ticks, seen⟩ a)).Kept
      scaling.spawnAfterSaturatedTicks cooldown (isScaled (node.settings spec)) := by
  have hpos : (loopOf spec b ticks seen).position = .due := by
    rw [loopOf, htick]
    exact if_pos rfl
  have hdrops : dropsNow spec b a = false := by
    rw [dropsNow, htick, Option.any_some]
    exact Bool.and_eq_false_imp.mpr fun hstops => absurd (Bool.and_eq_true_iff.mp hstops).2 nofun
  have hverdict : verdict node scaling b a = if isScaled (node.settings spec) then
      some (firstPass scaling (node.settings spec) (snapshot node b spec a) b.base.now b.idleTicks
        (b.saturationTicks spec) (decide (0 < b.cooldown spec))) else none := by
    rw [verdict, htick]
    rfl
  have hscales : scalesNow node spec b a =
      if spec = spec ∧ isScaled (node.settings spec) = true ∧ (lifetimeReapCandidates
          (node.settings spec) (snapshot node b spec a) b.base.now).isEmpty = true then
        some (decide (0 < b.cooldown spec)) else none := by
    rw [scalesNow, htick]
    rfl
  obtain ⟨t, ht, hstep⟩ := Option.bind_eq_some_iff.mp hstep
  cases htick.symm.trans ht
  dsimp only at hstep
  cases hscaled : isScaled (node.settings spec) with
  | false =>
    rw [hscaled, if_neg Bool.false_ne_true] at hverdict
    rw [hverdict] at hstep
    cases hstep
    rw [hscaled] at hscales h
    rw [if_neg fun hnow => Bool.false_ne_true hnow.2.1] at hscales
    rw [observe_of_none hscales, hdrops, if_neg Bool.false_ne_true, loop_next hrest]
    exact h.skip hpos rfl
  | true =>
    rw [hscaled, if_pos rfl] at hverdict
    rw [hverdict] at hstep
    cases hstep
    rw [hscaled] at hscales h
    have hreap := h.reap hpos rfl
    cases haged : lifetimeReapCandidates (node.settings spec) (snapshot node b spec a)
        b.base.now with
    | nil =>
      rw [haged, if_pos ⟨rfl, rfl, rfl⟩] at hscales
      rw [firstPass, haged] at hverdict ⊢
      rw [observe_of_passes hscales hverdict]
      refine kept_passes ?_ hrest (node.settings spec) (snapshot node b spec a) rfl
      simp only [Function.update_self]
      exact hreap
    | cons r aged =>
      rw [haged, if_neg fun hnow => Bool.false_ne_true hnow.2.2] at hscales
      rw [observe_of_none hscales, hdrops, if_neg Bool.false_ne_true, firstPass, haged,
        IdleStops.State.act, loop_stay]
      simp only [Function.update_self]
      exact hreap

theorem kept_recounting {ticks : Nat} {seen : Nat → Seen} {cooldown : Nat} {cooling : Bool}
    (h : (loopOf spec b ticks seen).Kept scaling.spawnAfterSaturatedTicks cooldown
      (isScaled (node.settings spec)))
    (htick : b.tick = some ⟨spec :: rest, .recounting cooling⟩) (hrest : spec ∉ rest)
    (hstep : scale node scaling b a = some b') :
    (loopOf spec b' ticks (observe node scaling spec ⟨b, ticks, seen⟩ a)).Kept
      scaling.spawnAfterSaturatedTicks cooldown (isScaled (node.settings spec)) := by
  have hloop : loopOf spec b ticks seen =
      ⟨.recount cooling, ticks, b.saturationTicks spec, b.cooldown spec, seen⟩ := by
    rw [loopOf, htick]
    exact congrArg (Loop.mk · ticks _ _ seen) (if_pos rfl)
  have hscales : scalesNow node spec b a = some cooling := by
    rw [scalesNow, htick]
    exact if_pos rfl
  have hverdict : verdict node scaling b a = some (scalePasses scaling (node.settings spec)
      (snapshot node b spec a) b.idleTicks (b.saturationTicks spec) cooling) := by
    rw [verdict, htick]
    rfl
  obtain ⟨t, ht, hstep⟩ := Option.bind_eq_some_iff.mp hstep
  cases htick.symm.trans ht
  obtain ⟨v, hv, rfl⟩ := Option.map_eq_some_iff.mp hstep
  rw [hloop] at h
  rw [observe_of_passes hscales hv]
  exact kept_passes h hrest _ _ (Option.some.inj (hv.symm.trans hverdict))

/-- The loop goes on with what it has decided on. -/
theorem kept_acting {ticks : Nat} {seen : Nat → Seen}
    (h : (loopOf spec b ticks seen).Kept scaling.spawnAfterSaturatedTicks
      (cooldownTicksForSpec scaling (node.settings spec)) (isScaled (node.settings spec)))
    (htick : b.tick = some ⟨spec :: rest, stage⟩) (hrest : spec ∉ rest)
    (hlooking : stage ≠ .looking) (hrecounting : ∀ cooling, stage ≠ .recounting cooling)
    (hstep : scale node scaling b a = some b') :
    (loopOf spec b' ticks (observe node scaling spec ⟨b, ticks, seen⟩ a)).Kept
      scaling.spawnAfterSaturatedTicks (cooldownTicksForSpec scaling (node.settings spec))
      (isScaled (node.settings spec)) := by
  have hloop : loopOf spec b ticks seen =
      ⟨stagePosition stage, ticks, b.saturationTicks spec, b.cooldown spec, seen⟩ := by
    rw [loopOf, htick]
    exact congrArg (Loop.mk · ticks _ _ seen) (if_pos rfl)
  have hscales : scalesNow node spec b a = none := by
    rw [scalesNow, htick]
    cases stage with
    | looking => exact absurd rfl hlooking
    | recounting cooling => exact absurd rfl (hrecounting cooling)
    | _ => rfl
  have hdrops : dropsNow spec b a = (stops stage && a.ok) := by
    rw [dropsNow, htick, Option.any_some]
    simp only [List.head?_cons, decide_true, Bool.true_and]
  rw [observe_of_none hscales]
  rw [hloop] at h
  obtain ⟨t, ht, hstep⟩ := Option.bind_eq_some_iff.mp hstep
  cases htick.symm.trans ht
  cases stage with
  | looking => exact absurd rfl hlooking
  | recounting cooling => exact absurd rfl (hrecounting cooling)
  | growing left =>
    have hnone : dropsNow spec b a = false := hdrops
    rw [hnone, if_neg Bool.false_ne_true]
    cases left with
    | zero =>
      cases hstep
      rw [loop_next hrest]
      simp only [Function.update_self]
      exact h.grown rfl
    | succ left =>
      cases hstep
      rw [loop_begin]
      exact h
  | awaiting call left =>
    have hnone : dropsNow spec b a = false := hdrops
    rw [hnone, if_neg Bool.false_ne_true]
    dsimp only at hstep
    split at hstep
    · cases hstep
      rw [loop_stay]
      exact h
    · cases hstep
  | stopping todo sequel =>
    cases todo with
    | nil =>
      have hnone : dropsNow spec b a = false := hdrops
      rw [hnone, if_neg Bool.false_ne_true]
      cases sequel with
      | recount cooling =>
        cases hstep
        rw [loop_stay]
        exact h
      | cool stoppedAny =>
        cases hstep
        rw [loop_next hrest]
        have harm := h.arm rfl
        unfold Loop.arm at harm
        dsimp only at harm ⊢
        split at harm
        · next harmed =>
          rw [if_pos harmed, Function.update_self]
          exact harm
        · next hnot =>
          rw [if_neg hnot]
          exact harm
    | cons v todo =>
      cases hstep
      rw [loop_begin]
      cases sequel with
      | recount cooling =>
        have hnone : dropsNow spec b a = false := hdrops
        rw [hnone, if_neg Bool.false_ne_true]
        exact h
      | cool stoppedAny =>
        have hok : dropsNow spec b a = a.ok := hdrops
        rw [hok]
        have hpos : stagePosition (.cleaning b.base.calls.length v.1 v.2 todo
            ((Sequel.cool stoppedAny).note a.ok)) = .dropping (stoppedAny || a.ok) := rfl
        rw [hpos]
        cases a.ok with
        | true =>
          rw [Bool.or_true, if_pos rfl]
          exact h.drop rfl
        | false =>
          rw [Bool.or_false, if_neg Bool.false_ne_true]
          exact h
  | cleaning call r idle todo sequel =>
    have hnone : dropsNow spec b a = false := hdrops
    rw [hnone, if_neg Bool.false_ne_true]
    dsimp only at hstep
    split at hstep
    · cases hstep
      rw [loop_stay]
      exact h
    · cases hstep

omit [DecidableEq ι] in
/-- Nothing is seen of the spec in the turn of another. -/
theorem observe_of_ne {ticks : Nat} {seen : Nat → Seen}
    (htick : b.tick = some ⟨x :: rest, stage⟩) (hne : x ≠ spec) :
    observe node scaling spec ⟨b, ticks, seen⟩ a = seen := by
  have hscales : scalesNow node spec b a = none := by
    rw [scalesNow, htick]
    cases stage with
    | looking => exact if_neg fun hnow => hne hnow.1
    | recounting cooling => exact if_neg hne
    | _ => rfl
  have hdrops : dropsNow spec b a = false := by
    rw [dropsNow, htick, Option.any_some, List.head?_cons,
      decide_eq_false fun heq => hne (Option.some.inj heq), Bool.false_and, Bool.false_and]
  rw [observe_of_none hscales, hdrops, if_neg Bool.false_ne_true]

omit [Floats] [DecidableEq ι] in
theorem tick_act {cooling : Bool} {v : Verdict ι} {t : Tick ι}
    (ht : t ∈ (b.act x rest cooling v).tick) : t.specs = x :: rest ∨ t.specs = rest := by
  cases v with
  | hold n =>
    cases ht
    exact .inr rfl
  | _ =>
    cases ht
    exact .inl rfl

/-- The specs that are still to come are the last ones of those before. -/
theorem tick_scale {specs : List Str} (htick : b.tick = some ⟨specs, stage⟩)
    (hstep : scale node scaling b a = some b') : ∀ t ∈ b'.tick, t.specs <:+ specs := by
  intro t ht
  obtain ⟨t', ht', hstep⟩ := Option.bind_eq_some_iff.mp hstep
  cases htick.symm.trans ht'
  cases specs with
  | nil =>
    cases hstep
    cases ht
  | cons x rest =>
    have hsame : ∀ specs, specs = x :: rest ∨ specs = rest → specs <:+ x :: rest := by
      rintro specs (rfl | rfl)
      · exact List.suffix_refl _
      · exact List.suffix_cons x specs
    refine hsame t.specs ?_
    cases stage with
    | looking =>
      dsimp only at hstep
      split at hstep
      · cases hstep
        exact tick_act ht
      · cases hstep
        cases ht
        exact .inr rfl
    | recounting cooling =>
      obtain ⟨v, -, rfl⟩ := Option.map_eq_some_iff.mp hstep
      exact tick_act ht
    | growing left =>
      cases left with
      | zero =>
        cases hstep
        cases ht
        exact .inr rfl
      | succ left =>
        cases hstep
        cases ht
        exact .inl rfl
    | stopping todo sequel =>
      cases todo with
      | nil =>
        cases sequel with
        | recount cooling =>
          cases hstep
          cases ht
          exact .inl rfl
        | cool stoppedAny =>
          cases hstep
          cases ht
          exact .inr rfl
      | cons v todo =>
        cases hstep
        cases ht
        exact .inl rfl
    | _ =>
      dsimp only at hstep
      split at hstep
      · cases hstep
        cases ht
        exact .inl rfl
      · cases hstep

/-- **Step lemma.** The loop of the tick goes on. -/
theorem kept_scale {ticks : Nat} {seen : Nat → Seen}
    (h : (loopOf spec b ticks seen).Kept scaling.spawnAfterSaturatedTicks
      (cooldownTicksForSpec scaling (node.settings spec)) (isScaled (node.settings spec)))
    (honce : ∀ t ∈ b.tick, t.specs.count spec ≤ 1) (hstep : scale node scaling b a = some b') :
    (loopOf spec b' ticks (observe node scaling spec ⟨b, ticks, seen⟩ a)).Kept
      scaling.spawnAfterSaturatedTicks (cooldownTicksForSpec scaling (node.settings spec))
      (isScaled (node.settings spec)) := by
  obtain ⟨⟨specs, stage⟩, htick, hnext⟩ := Option.bind_eq_some_iff.mp hstep
  cases specs with
  | nil =>
    cases hnext
    have hseen : observe node scaling spec ⟨b, ticks, seen⟩ a = seen := by
      unfold observe scalesNow dropsNow
      dsimp only
      rw [htick]
      rfl
    have hloop : loopOf spec b ticks seen =
        ⟨.away, ticks, b.saturationTicks spec, b.cooldown spec, seen⟩ := by
      rw [loopOf, htick]
      rfl
    rw [hseen]
    rw [hloop] at h
    exact h
  | cons x rest =>
    by_cases hx : x = spec
    · subst hx
      have hrest : x ∉ rest := by
        have hcount := honce _ htick
        rw [List.count_cons_self] at hcount
        exact List.count_eq_zero.mp (Nat.le_zero.mp (Nat.le_of_succ_le_succ hcount))
      cases stage with
      | looking => exact kept_looking h htick hrest hstep
      | recounting cooling => exact kept_recounting h htick hrest hstep
      | _ => exact kept_acting h htick hrest nofun nofun hstep
    · rw [observe_of_ne htick hx, loop_scale_of_ne htick hx hstep]
      exact h

variable [DecidableEq κ] {e : IdleStops.Event ι κ}

/-- What holds of the loop, and that the spec comes once in the running tick. -/
structure Inv (node : Proxy.Calls.Node κ) (scaling : Scaling) (spec : Str) (s : State ι κ) :
    Prop where
  kept : (loopOf spec s.base s.ticks s.seen).Kept scaling.spawnAfterSaturatedTicks
    (cooldownTicksForSpec scaling (node.settings spec)) (isScaled (node.settings spec))
  once : ∀ t ∈ s.base.tick, t.specs.count spec ≤ 1

/-- **Step lemma.** -/
theorem Inv.step (h : Inv node scaling spec s) (hok : ListsOnce spec s e)
    (hstep : (machine node scaling spec).step s e = some s') : Inv node scaling spec s' := by
  obtain ⟨b, hb, rfl⟩ := Option.map_eq_some_iff.mp hstep
  cases e with
  | call e =>
    obtain ⟨base, -, rfl⟩ := Option.map_eq_some_iff.mp hb
    exact ⟨h.kept, h.once⟩
  | tick specs =>
    simp only [IdleStops.step] at hb
    split at hb
    · next hnone =>
      cases hb
      have hcount : specs.count spec = 1 := hok
      have hmem : spec ∈ specs := List.count_pos_iff.mp (by omega)
      have haway : (loopOf spec s.base s.ticks s.seen).position = .away := by
        rw [loopOf, Option.isNone_iff_eq_none.mp hnone]
        rfl
      have hcontains : specs.contains spec = true := List.contains_iff_mem.mpr hmem
      have hloop := h.kept.begin haway
      refine ⟨?_, fun t ht => ?_⟩
      · unfold loopOf
        dsimp only
        rw [position_next, if_pos hmem, if_pos hcontains, if_pos hcontains]
        exact hloop
      · cases ht
        exact hcount.le
    · cases hb
  | scale a =>
    refine ⟨kept_scale h.kept h.once hb, fun t ht => ?_⟩
    obtain ⟨⟨specs, stage⟩, htick, -⟩ := Option.bind_eq_some_iff.mp hb
    have hsuffix := tick_scale htick hb t ht
    exact (hsuffix.sublist.count_le spec).trans (h.once _ htick)

/-- **Scaling up after scaling down.** While the catalog lists the spec once, a tick that scales
it down and a later one that spawns for its load are the cooldown and the grace apart, and each
such spawn ends a grace of ticks that were saturated and outside the cooldown. -/
theorem spaced_of_listsOnce {rows : Registry ι} {es : List (IdleStops.Event ι κ)}
    (hrun : (machine node scaling spec).Run (ListsOnce spec) (start rows) es s) :
    Spaced scaling.spawnAfterSaturatedTicks (cooldownTicksForSpec scaling (node.settings spec))
      s.seen := by
  have hstart : Inv node scaling spec (start rows : State ι κ) := by
    refine ⟨⟨Sound.start, fun hne => absurd rfl hne, fun _ => rfl, nofun, nofun⟩, fun t ht => ?_⟩
    cases ht
  exact (hrun.invariant hstart fun _ _ _ hI hok hstep => hI.step hok hstep).kept.spaced

end Steps

/-! ## A catalog that lists a spec twice -/

section Example

attribute [local instance] wholeFloats

open Proxy.Calls

/-- The lab with more containers and six ticks of cooldown. -/
def duoNode : Node Nat :=
  { labNode with settings := fun spec => { labNode.settings spec with
      maxReplicas := some defaultMaxReplicas } }

/-- One saturated tick is enough. -/
def brisk : Scaling := { eager with spawnAfterSaturatedTicks := 1 }

/-- One container is full, the other idle. -/
def duo : Registry Nat := [{ labReplica 7 with sessionsActive := 1 }, labReplica 8]

def scales : IdleStops.Event Nat Nat := .scale stopped

/-- The idle container is stopped in the first turn of the first tick. -/
def drops (catalog : List Str) : List (IdleStops.Event Nat Nat) :=
  [.call (.tick 60000), .tick catalog, scales, scales] ++
    List.replicate 4 (.call (.advance 0 (labOutside 0 none))) ++ [scales, scales]

def idles : List (IdleStops.Event Nat Nat) := [scales, .tick [labId], scales]

/-- After six ticks of cooldown the seventh one spawns. -/
def once : List (IdleStops.Event Nat Nat) := drops [labId] ++ (List.replicate 7 idles).flatten

theorem spaced_once : ∃ s, (machine duoNode brisk labId).exec (start duo) once = some s ∧
    (s.seen 0).released = true ∧ (s.seen 7).fired = true ∧ Spaced 1 6 s.seen := by
  have hsome : ((machine duoNode brisk labId).execIf (ListsOnce labId) (start duo)
      once).isSome = true := by decide
  have hrun := run_execIf hsome
  have hexec := run_free_iff.mp (hrun.mono fun _ _ _ => trivial)
  have hseen : ((machine duoNode brisk labId).exec (start duo) once).map
      (fun s => ((s.seen 0).released, (s.seen 7).fired)) = some (true, true) := by decide
  rw [hexec] at hseen
  have hpair := Prod.mk.inj (Option.some.inj hseen)
  exact ⟨_, hexec, hpair.1, hpair.2, spaced_of_listsOnce hrun⟩

/-- The second turn of a tick counts the cooldown down once more. -/
def twice : List (IdleStops.Event Nat Nat) :=
  drops [labId, labId] ++
    (List.replicate 3 [scales, scales, .tick [labId, labId], scales]).flatten ++ [scales]

theorem twice_flaps : ∃ s, (machine duoNode brisk labId).exec (start duo) twice = some s ∧
    (∀ specs, IdleStops.Event.tick specs ∈ twice → specs = [labId, labId]) ∧
    ¬ Spaced brisk.spawnAfterSaturatedTicks
      (cooldownTicksForSpec brisk (duoNode.settings labId)) s.seen := by
  have hsome : ((machine duoNode brisk labId).exec (start duo) twice).isSome = true := by decide
  obtain ⟨s, hs⟩ := Option.isSome_iff_exists.mp hsome
  have hseen : ((machine duoNode brisk labId).exec (start duo) twice).map
      (fun s => ((s.seen 0).released, (s.seen 3).fired)) = some (true, true) := by decide
  rw [hs] at hseen
  have hpair := Prod.mk.inj (Option.some.inj hseen)
  refine ⟨s, hs, fun specs hspecs => ?_, fun hspaced => ?_⟩
  · simpa [twice, drops, scales, List.mem_replicate] using hspecs
  · have hapart := hspaced.apart 0 3 hpair.1 hpair.2 (by decide)
    have hcooldown : cooldownTicksForSpec brisk (duoNode.settings labId) = 6 := by decide
    rw [hcooldown] at hapart
    exact absurd hapart (by decide)

end Example

end Ruscker.Scaler.Flaps

import DependencyAudit.Logged
import DependencyAudit.Proofs.Success

/-!
# What an audit comes to

`Audit.value` forgets the events of an audit. It respects every way in which audits are put
together, so what an audit comes to can be computed as if nothing were reported. `Audit.events`
keeps the events only. `Audit.Runs` is about both: an audit that comes to a value has reported what
its parts report, in order.
-/

namespace DependencyAudit

theorem Logged.events_mapM {α β : Type} (f : α → Logged β) (xs : List α) :
    (xs.mapM f).events = xs.flatMap fun x => (f x).events := by
  induction xs with
  | nil => rfl
  | cons x xs ih =>
    rw [List.mapM_cons, List.flatMap_cons, ← ih, Logged.events_bind, Logged.events_bind,
      Logged.events_pure, List.append_nil]

namespace Audit

variable {ε ε' α β : Type}

def value (x : Audit ε α) : Except ε α := (ExceptT.run x : Logged (Except ε α)).value

@[simp] theorem value_pure (a : α) : value (pure a : Audit ε α) = .ok a := rfl

@[simp] theorem value_liftExcept (x : Except ε α) : value (liftM x : Audit ε α) = x := rfl

@[simp] theorem value_adapt (f : ε → ε') (x : Audit ε α) :
    value (ExceptT.adapt f x) = (value x).mapError f := rfl

theorem liftExcept_ok_bind (a : α) (f : α → Audit ε β) :
    (liftM (Except.ok a : Except ε α) : Audit ε α) >>= f = f a := rfl

theorem liftExcept_error_bind (e : ε) (f : α → Audit ε β) :
    (liftM (Except.error e : Except ε α) : Audit ε α) >>= f = throw e := rfl

theorem value_bind (x : Audit ε α) (f : α → Audit ε β) :
    value (x >>= f) = value x >>= fun a => value (f a) := by
  unfold value
  rw [ExceptT.run_bind]
  cases h : x.run.value with
  | ok a => simp [h]; rfl
  | error e => simp [h]; rfl

theorem value_mapM (f : α → Audit ε β) (xs : List α) :
    value (xs.mapM f) = xs.mapM fun x => value (f x) := by
  induction xs with
  | nil => rfl
  | cons x xs ih =>
    rw [List.mapM_cons, List.mapM_cons, value_bind]
    congr 1
    funext b
    rw [value_bind, ih]
    rfl

theorem value_forIn_note (events : α → Event) (xs : List α) :
    value (forIn xs PUnit.unit fun x _ => do
      Logged.note (events x)
      pure (ForInStep.yield PUnit.unit) : Audit ε PUnit) = .ok PUnit.unit := by
  induction xs with
  | nil => rfl
  | cons x xs ih =>
    rw [List.forIn_cons, value_bind]
    exact ih

def events (x : Audit ε α) : List Event := (ExceptT.run x : Logged (Except ε α)).events

@[simp] theorem events_pure (a : α) : events (pure a : Audit ε α) = [] := rfl

theorem events_bind_of_ok {x : Audit ε α} {a : α} (h : value x = .ok a) (f : α → Audit ε β) :
    events (x >>= f) = events x ++ events (f a) := by
  unfold value at h
  unfold events
  rw [ExceptT.run_bind, Logged.events_bind, h]

theorem events_forIn_note (event : α → Event) (xs : List α) :
    events (forIn xs PUnit.unit fun x _ => do
      Logged.note (event x)
      pure (ForInStep.yield PUnit.unit) : Audit ε PUnit) = xs.map event := by
  induction xs with
  | nil => rfl
  | cons x xs ih =>
    have hnote : value (do
        Logged.note (event x)
        pure (ForInStep.yield PUnit.unit) : Audit ε (ForInStep PUnit)) =
          .ok (.yield PUnit.unit) := rfl
    rw [List.forIn_cons, events_bind_of_ok hnote, List.map_cons, ← ih]
    rfl

/-- The audit comes to the value and reports the events. -/
structure Runs (x : Audit ε α) (reported : List Event) (a : α) : Prop where
  value_eq : x.value = .ok a
  events_eq : x.events = reported

section

variable {x : Audit ε α} {f : α → Audit ε β} {reported : List Event} {a : α} {b : β}

theorem runs_events (h : x.value = .ok a) : Runs x x.events a := ⟨h, rfl⟩

theorem runs_pure_iff {a' : α} :
    Runs (pure a' : Audit ε α) reported a ↔ a' = a ∧ reported = [] := by
  constructor
  · rintro ⟨hvalue, rfl⟩
    exact ⟨Except.ok.inj hvalue, rfl⟩
  · rintro ⟨rfl, rfl⟩
    exact ⟨rfl, rfl⟩

theorem runs_liftExcept_iff {y : Except ε α} :
    Runs (liftM y : Audit ε α) reported a ↔ y = .ok a ∧ reported = [] := by
  have hevents : events (liftM y : Audit ε α) = [] := rfl
  constructor
  · rintro ⟨hvalue, rfl⟩
    exact ⟨hvalue, hevents⟩
  · rintro ⟨hy, rfl⟩
    exact ⟨hy, hevents⟩

theorem runs_lift_iff {y : Logged α} :
    Runs (ExceptT.lift y : Audit ε α) reported a ↔ y.value = a ∧ reported = y.events := by
  have hevents : events (ExceptT.lift y : Audit ε α) = y.events := List.append_nil _
  constructor
  · rintro ⟨hvalue, rfl⟩
    exact ⟨Except.ok.inj hvalue, hevents⟩
  · rintro ⟨rfl, rfl⟩
    exact ⟨rfl, hevents⟩

theorem runs_adapt_iff {y : Audit ε' α} {g : ε' → ε} :
    Runs (ExceptT.adapt g y) reported a ↔ Runs y reported a := by
  have hevents : events (ExceptT.adapt g y) = y.events := List.append_nil _
  constructor
  · rintro ⟨hvalue, rfl⟩
    exact ⟨Success.mapError_eq_ok_iff.1 hvalue, hevents.symm⟩
  · rintro ⟨hvalue, rfl⟩
    exact ⟨Success.mapError_eq_ok_iff.2 hvalue, hevents⟩

/-- Both parts of a sequence come to a value, and their events follow each other. -/
theorem runs_bind_iff :
    Runs (x >>= f) reported b ↔
      ∃ before after a, Runs x before a ∧ Runs (f a) after b ∧ reported = before ++ after := by
  constructor
  · rintro ⟨hvalue, rfl⟩
    rw [value_bind, Success.bind_eq_ok_iff] at hvalue
    obtain ⟨a, ha, hb⟩ := hvalue
    exact ⟨_, _, a, runs_events ha, runs_events hb, events_bind_of_ok ha f⟩
  · rintro ⟨before, after, a, ⟨ha, rfl⟩, ⟨hb, rfl⟩, rfl⟩
    refine ⟨?_, events_bind_of_ok ha f⟩
    rw [value_bind, ha]
    exact hb

theorem runs_mapM_cons_iff {ys : List β} {xs : List α} :
    Runs ((a :: xs).mapM f) reported ys ↔ ∃ before after z zs, Runs (f a) before z ∧
      Runs (xs.mapM f) after zs ∧ ys = z :: zs ∧ reported = before ++ after := by
  rw [List.mapM_cons]
  simp only [runs_bind_iff, runs_pure_iff]
  constructor
  · rintro ⟨before, _, z, hz, ⟨after, _, zs, hzs, ⟨rfl, rfl⟩, rfl⟩, rfl⟩
    exact ⟨before, after, z, zs, hz, hzs, rfl, by rw [List.append_nil]⟩
  · rintro ⟨before, after, z, zs, hz, hzs, rfl, rfl⟩
    exact ⟨before, _, z, hz, ⟨after, [], zs, hzs, ⟨rfl, rfl⟩, rfl⟩, by rw [List.append_nil]⟩

end

end Audit
end DependencyAudit

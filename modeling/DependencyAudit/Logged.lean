import DependencyAudit.Event

/-!
# Logged computations

`Logged` carries the events of a computation beside its value, in order. An `Audit` may fail
besides, and its events stay whether it fails or not.
-/

namespace DependencyAudit

structure Logged (α : Type) where
  events : List Event
  value : α

namespace Logged

variable {α β : Type}

instance : Monad Logged where
  pure a := ⟨[], a⟩
  bind x f := ⟨x.events ++ (f x.value).events, (f x.value).value⟩

def note (e : Event) : Logged Unit := ⟨[e], ()⟩

@[simp] theorem events_pure (a : α) : (pure a : Logged α).events = [] := rfl

@[simp] theorem value_pure (a : α) : (pure a : Logged α).value = a := rfl

@[simp] theorem events_bind (x : Logged α) (f : α → Logged β) :
    (x >>= f).events = x.events ++ (f x.value).events := rfl

@[simp] theorem value_bind (x : Logged α) (f : α → Logged β) :
    (x >>= f).value = (f x.value).value := rfl

@[simp] theorem events_note (e : Event) : (note e).events = [e] := rfl

@[ext] theorem ext {x y : Logged α} (he : x.events = y.events) (hv : x.value = y.value) :
    x = y := by
  cases x
  cases y
  simp_all

instance : LawfulMonad Logged :=
  LawfulMonad.mk' Logged
    (fun x => ext (by simp [Functor.map]) (by simp [Functor.map]))
    (fun a f => ext (by simp) (by simp))
    (fun x f g => ext (by simp) (by simp))

end Logged

abbrev Audit (ε : Type) := ExceptT ε Logged

end DependencyAudit

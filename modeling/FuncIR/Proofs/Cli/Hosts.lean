import FuncIR.Cli.Execute
import FuncIR.Proofs.Cli.Writes

/-!
# What a host promises

A `View` tells which files and which output are seen in a state of a host. A host is `Lawful` in a view if it does to
files and output what its operations are for, and nothing else. What is assumed of a write is that it replaces the
contents of one file as a whole, or fails and changes nothing. The host in memory is lawful (`World.lawful_host`).
-/

namespace FuncIR.Cli

open Text (Bytes)
open Text.Utf8 (encode)

/-- The files and the output that are seen in a state. A path may lead to a place where nothing is yet, and several
paths may lead to the same place. -/
structure View (σ : Type) where
  Files : Type
  Place : Type
  files : σ → Files
  output : σ → String
  place? : Files → Bytes → Option Place
  contents? : Files → Place → Option ByteArray
  /-- What is written to a device is not kept. -/
  IsDevice : Files → Place → Prop

namespace View
variable {σ : Type} (view : View σ)

/-- Files and output are as they were. -/
def Untouched (before after : σ) : Prop :=
  view.files after = view.files before ∧ view.output after = view.output before

/-- This was printed, and nothing else was done. -/
def Printed (before : σ) (text : String) (after : σ) : Prop :=
  view.files after = view.files before ∧ view.output after = view.output before ++ text

/-- The path leads to a file with this text. -/
def Reads (files : view.Files) (path : Bytes) (text : String) : Prop :=
  ∃ place, view.place? files path = some place ∧ view.contents? files place = some text.toUTF8

/-- The files after a text was written to the place that a path leads to. All other contents are as they were, and what
led somewhere still leads there. The text is there, unless a device is, which keeps nothing. -/
structure Wrote (before : view.Files) (path : Bytes) (text : String) (place : view.Place) (after : view.Files) :
    Prop where
  leads : view.place? before path = some place
  elsewhere : ∀ other, other ≠ place → view.contents? after other = view.contents? before other
  ways : ∀ name other, view.place? before name = some other → view.place? after name = some other
  there : view.IsDevice before place ∧ after = before ∨ view.contents? after place = some text.toUTF8

variable {view} {before middle after : σ}

theorem Untouched.refl (state : σ) : view.Untouched state state :=
  ⟨rfl, rfl⟩

theorem Untouched.trans (h : view.Untouched before middle) (h' : view.Untouched middle after) :
    view.Untouched before after :=
  ⟨h'.1.trans h.1, h'.2.trans h.2⟩

theorem Untouched.printed {text : String} (h : view.Untouched before middle) (h' : view.Printed middle text after) :
    view.Printed before text after :=
  ⟨h'.1.trans h.1, h.2 ▸ h'.2⟩

end View

/-- The operations of a host do what they are for. -/
structure Host.Lawful {σ : Type} (host : Host (StateM σ)) (view : View σ) : Prop where
  stat : ∀ path state, view.Untouched state ((host.stat path).run state).2
  read : ∀ path state, view.Untouched state ((host.read path).run state).2
  read_ok : ∀ path text state, ((host.read path).run state).1 = .ok text →
    view.Reads (view.files state) (encode path) text
  print : ∀ text state, view.Printed state text ((host.print text).run state).2
  log : ∀ entries state, view.Untouched state ((host.log entries).run state).2
  write_error : ∀ path text state cause, ((host.write path text).run state).1 = .error cause →
    view.Untouched state ((host.write path text).run state).2
  write_ok : ∀ path text state, ((host.write path text).run state).1 = .ok () →
    ∃ place, view.Wrote (view.files state) path text place (view.files ((host.write path text).run state).2)

/-! ## The host in memory -/

namespace World

/-- The files of a world are its store. A place is a path from the root. -/
def view : View World where
  Files := Store
  Place := Path
  files := store
  output := stdout
  place? := fun store path => (store.resolve path).toOption
  contents? := Store.contents?
  IsDevice := Store.IsDevice

section
variable {path : Bytes} {text : String} {world : World}

theorem wrote_of_write {store : Store} (h : world.store.write path text = .ok store) :
    ∃ place, view.Wrote world.store path text place store := by
  obtain ⟨place, hr, ⟨device, rfl⟩ | ⟨plain, rfl⟩⟩ := Store.write_cases h
  · exact ⟨place, congrArg Except.toOption hr, fun _ _ => rfl, fun _ _ leads => leads, .inl ⟨device, rfl⟩⟩
  · refine ⟨place, congrArg Except.toOption hr, fun _ hne => Store.contents?_put_of_ne hne,
      fun name other leads => ?_, .inr (Store.contents?_put_self _ plain)⟩
    change (world.store.resolve name).toOption = some other at leads
    cases found : world.store.resolve name with
    | error error =>
      rw [found] at leads
      cases leads
    | ok way =>
      rw [found] at leads
      cases leads
      exact congrArg Except.toOption (Store.resolve_put _ plain found)

theorem write_run_error {error : FileError} (h : world.store.write path text = .error error) :
    (host.write path text).run world = (.error error.message, world) := by
  simp only [host, write, StateT.run_bind, StateT.run_get, pure_bind, h]
  rfl

/-- A write has no other effect than on the store, but what goes to a printer is printed too. -/
theorem write_run_ok {store : Store} (h : world.store.write path text = .ok store) :
    ∃ stdout, (host.write path text).run world = (.ok (), { world with store := store, stdout := stdout }) := by
  simp only [host, write, StateT.run_bind, StateT.run_get, pure_bind, h]
  split
  · exact ⟨world.stdout ++ text, rfl⟩
  · exact ⟨world.stdout, rfl⟩

end

theorem ask_run {α : Type} (query : Store → Except FileError α) (world : World) :
    (ask query).run world = ((query world.store).mapError FileError.message, world) :=
  rfl

theorem lawful_host : host.Lawful view where
  stat := fun _ world => View.Untouched.refl world
  read := fun _ world => View.Untouched.refl world
  read_ok := fun path text world h => by
    change ((world.store.read (encode path)).mapError FileError.message) = .ok text at h
    cases hr : world.store.read (encode path) with
    | error error => simp [hr, Except.mapError] at h
    | ok contents =>
      obtain rfl : contents = text := by simpa [hr, Except.mapError] using h
      obtain ⟨place, leads, there⟩ := Store.exists_of_read hr
      exact ⟨place, congrArg Except.toOption leads, there⟩
  print := fun _ _ => ⟨rfl, rfl⟩
  log := fun _ world => ⟨rfl, rfl⟩
  write_error := fun path text world cause h => by
    cases hw : world.store.write path text with
    | error error =>
      rw [write_run_error hw]
      exact View.Untouched.refl world
    | ok store =>
      obtain ⟨stdout, written⟩ := write_run_ok hw
      rw [written] at h
      cases h
  write_ok := fun path text world h => by
    cases hw : world.store.write path text with
    | error error =>
      rw [write_run_error hw] at h
      cases h
    | ok store =>
      obtain ⟨stdout, written⟩ := write_run_ok hw
      rw [written]
      exact wrote_of_write hw

end World

end FuncIR.Cli

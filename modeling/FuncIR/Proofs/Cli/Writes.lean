import FuncIR.Cli.Store
import Mathlib.Tactic.SplitIfs

/-!
# What a write changes

A write puts a file at one path, unless a device is there, which keeps nothing (`write_cases`). All other paths keep
their entries (`lookup_put_of_ne`), and what leads somewhere still leads there (`resolve_put`). So the contents are new
at the path (`contents?_put_self`) and nowhere else (`contents?_put_of_ne`).
-/

namespace FuncIR.Cli.Store

open Text (Bytes)

/-- The store with this entry at a path. -/
def put (store : Store) (path : Path) (entry : Entry) : Store :=
  { store with entries := replace path entry store.entries }

/-- What is written to a device is not kept. -/
def IsDevice (store : Store) (path : Path) : Prop :=
  store.entryAt path = .ok .null ∨ store.entryAt path = .ok .printer

/-- There is a file at the path, or a file can be made there. -/
def IsPlain (store : Store) (path : Path) : Prop :=
  (∃ bytes, store.entryAt path = .ok (.file bytes)) ∨ store.entryAt path = .error .notFound

theorem write_cases {store after : Store} {name : Bytes} {contents : String}
    (h : store.write name contents = .ok after) :
    ∃ path, store.resolve name = .ok path ∧
      (store.IsDevice path ∧ after = store ∨
        store.IsPlain path ∧ after = store.put path (.file contents.toUTF8)) := by
  unfold write at h
  cases hr : store.resolve name with
  | error error =>
    rw [hr] at h
    cases h
  | ok path =>
    rw [hr] at h
    cases slash : wantsDirectory name with
    | true => simp [bind, Except.bind, slash] at h
    | false =>
      simp only [bind, Except.bind, slash, Bool.false_eq_true, if_false] at h
      refine ⟨path, rfl, ?_⟩
      cases at_path : store.entryAt path with
      | error error =>
        cases error <;> rw [at_path] at h <;> cases h
        exact .inr ⟨.inr at_path, rfl⟩
      | ok entry =>
        cases entry <;> rw [at_path] at h <;> cases h
        · exact .inr ⟨.inl ⟨_, at_path⟩, rfl⟩
        · exact .inl ⟨.inl at_path, rfl⟩
        · exact .inl ⟨.inr at_path, rfl⟩

section
variable {store : Store} {path other : Path} {entry : Entry}

/-! ## Entries -/

theorem lookup_put_self (store : Store) (path : Path) (entry : Entry) :
    (store.put path entry).entries.lookup path = some entry := by
  unfold put
  induction store.entries with
  | nil => simp [replace]
  | cons first entries ih =>
    obtain ⟨key, old⟩ := first
    by_cases h : key = path
    · simp [replace, h]
    · simp [replace, h, List.lookup_cons, beq_false_of_ne (Ne.symm h), ih]

theorem lookup_put_of_ne (h : other ≠ path) :
    (store.put path entry).entries.lookup other = store.entries.lookup other := by
  unfold put
  induction store.entries with
  | nil => simp [replace, h]
  | cons first entries ih =>
    obtain ⟨key, old⟩ := first
    by_cases hk : key = path
    · subst hk
      simp [replace, List.lookup_cons, beq_false_of_ne h]
    · simp only [replace, hk, if_false, List.lookup_cons, ih]

/-- No path loses its entry. -/
theorem exists_mem_put (path : Path) (entry : Entry) {first : Path × Entry} (h : first ∈ store.entries) :
    ∃ now, (first.1, now) ∈ (store.put path entry).entries := by
  have found : (store.put path entry).entries.lookup first.1 ≠ none := by
    by_cases hp : first.1 = path
    · rw [hp, lookup_put_self]
      exact Option.some_ne_none entry
    · rw [lookup_put_of_ne hp]
      intro none
      simpa using List.lookup_eq_none_iff.1 none first h
  obtain ⟨now, hn⟩ := Option.ne_none_iff_exists'.1 found
  obtain ⟨before, after, hl, -⟩ := List.lookup_eq_some_iff.1 hn
  exact ⟨now, by simp [hl]⟩

/-- A directory that has something in it keeps it. -/
theorem any_isPrefixOf_put (h : store.entries.any fun (key, _) => other.isPrefixOf key) :
    (store.put path entry).entries.any fun (key, _) => other.isPrefixOf key := by
  obtain ⟨first, hf, inside⟩ := List.any_eq_true.1 h
  obtain ⟨now, hn⟩ := exists_mem_put path entry hf
  exact List.any_eq_true.2 ⟨_, hn, inside⟩

theorem entryAt_put_self (h : store.IsPlain path) : (store.put path entry).entryAt path = .ok entry := by
  -- A name that is too long would have been an error before.
  have short : ¬ path.getLast?.any (maxNameSize < ·.length) := by
    intro long
    rcases h with ⟨bytes, h⟩ | h <;> simp [entryAt, long] at h
  rw [entryAt, if_neg short, lookup_put_self]

/-- What is at another path stays there. -/
theorem entryAt_put_of_ne {old : Entry} (hne : other ≠ path) (h : store.entryAt other = .ok old) :
    (store.put path entry).entryAt other = .ok old := by
  unfold entryAt at h ⊢
  rw [lookup_put_of_ne hne]
  split at h
  · cases h
  · rename_i short
    rw [if_neg short]
    split at h
    · exact h
    · split at h
      · rename_i inside
        rw [if_pos (inside.imp_right any_isPrefixOf_put)]
        exact h
      · cases h

/-! ## Paths -/

theorem IsPlain.ne_of_directory (h : store.IsPlain path) (hd : store.entryAt other = .ok .directory) :
    other ≠ path := by
  rintro rfl
  rcases h with ⟨bytes, h⟩ | h <;> rw [hd] at h <;> cases h

/-- The way to a place goes through directories only, and none of them is the path of a file. -/
theorem follow_put {start place names : Path} (hp : store.IsPlain path)
    (h : store.follow start names = .ok place) : (store.put path entry).follow start names = .ok place := by
  induction names generalizing start with
  | nil => exact h
  | cons name names ih =>
    unfold follow at h ⊢
    split at h
    · rename_i directory
      rw [entryAt_put_of_ne (hp.ne_of_directory directory) directory]
      exact ih h
    · cases h
    · cases h

theorem resolve_put (entry : Entry) {name : Bytes} {place : Path} (hp : store.IsPlain path)
    (h : store.resolve name = .ok place) : (store.put path entry).resolve name = .ok place := by
  unfold resolve at h ⊢
  split_ifs at h ⊢ <;> first | exact h | exact follow_put hp h

theorem exists_of_find {name : Bytes} {found : Entry} (h : store.find name = .ok found) :
    ∃ place, store.resolve name = .ok place ∧ store.entryAt place = .ok found := by
  unfold find at h
  cases hr : store.resolve name with
  | error error =>
    rw [hr] at h
    cases h
  | ok place =>
    cases hp : store.entryAt place with
    | error error => simp [bind, Except.bind, hr, hp] at h
    | ok there =>
      refine ⟨place, rfl, ?_⟩
      cases hw : wantsDirectory name <;> cases there <;>
        simp_all [bind, Except.bind, pure, Except.pure]

/-! ## Contents -/

/-- What is in the file at a path; a device is empty. -/
def contents? (store : Store) (path : Path) : Option ByteArray :=
  match store.entryAt path with
  | .ok (.file bytes) => some bytes
  | .ok .null | .ok .printer => some ByteArray.empty
  | _ => none

theorem contents?_put_self (bytes : ByteArray) (h : store.IsPlain path) :
    (store.put path (.file bytes)).contents? path = some bytes := by
  rw [contents?, entryAt_put_self h]

theorem contents?_put_of_ne (hne : other ≠ path) :
    (store.put path entry).contents? other = store.contents? other := by
  unfold contents? entryAt
  rw [lookup_put_of_ne hne]
  cases store.entries.lookup other with
  | some old => rfl
  | none =>
    -- A directory holds no contents, and neither does a place with nothing there.
    dsimp only
    split_ifs <;> rfl

/-- What is read is the contents of the file that the path leads to. -/
theorem exists_of_read {name : Bytes} {contents : String} (h : store.read name = .ok contents) :
    ∃ place, store.resolve name = .ok place ∧ store.contents? place = some contents.toUTF8 := by
  unfold read at h
  cases hf : store.find name with
  | error error =>
    rw [hf] at h
    cases h
  | ok found =>
    obtain ⟨place, hr, there⟩ := exists_of_find hf
    refine ⟨place, hr, ?_⟩
    rw [hf] at h
    cases found with
    | directory => cases h
    | null =>
      cases h
      simp [contents?, there]
    | printer =>
      cases h
      simp [contents?, there]
    | file bytes =>
      have valid : String.fromUTF8? bytes = some contents := by
        cases hv : String.fromUTF8? bytes with
        | none => simp [bind, Except.bind, hv] at h
        | some found => simpa [bind, Except.bind, hv] using h
      unfold String.fromUTF8? at valid
      split_ifs at valid
      simp only [contents?, there, ← Option.some.inj valid]
      rfl

end

end FuncIR.Cli.Store

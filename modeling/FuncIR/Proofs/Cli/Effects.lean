import FuncIR.Proofs.Cli.Hosts
import FuncIR.Proofs.Text.Utf8
import Mathlib.Data.List.Basic

/-!
# No partial effects

A command reads and works first, and prints or writes in its last step: `AllOrNothing` says that it has left files and
output untouched if it fails, and what it has done otherwise. One rule, `AllOrNothing.bind`, puts steps together. So on
every lawful host an invocation that fails has no effect, and one that succeeds changes at most the file it was told to
write, which then holds the IR that the other ways to compile print (`run_all_or_nothing`). The source is named by a
text: a path that is not UTF-8 leads to another file, and a word that is the name of a subcommand is no path
(`sources_confused`).
-/

namespace FuncIR.Cli

open Text (Bytes)
open Text.Utf8 (encode decode IsText)

/-- Something to do on a host that can fail. -/
abbrev Command (σ α : Type) := ExceptT Failure (StateM σ) α

variable {σ α β : Type}

/-! ## Steps of a command -/

section
variable (state : σ)

theorem run_bind (action : Command σ α) (next : α → Command σ β) : (action >>= next).run.run state =
    match action.run.run state with
    | (.ok value, after) => (next value).run.run after
    | (.error failure, after) => (.error failure, after) := by
  change (match action.run.run state with
    | (result, after) => (ExceptT.bindCont next result).run after) = _
  cases action.run.run state with
  | mk result after => cases result <;> rfl

theorem run_lift (action : StateM σ α) :
    (liftM action : Command σ α).run.run state = (.ok (action.run state).1, (action.run state).2) :=
  rfl

end

/-! ## All or nothing -/

/-- A command that fails has touched nothing; otherwise it has done this, with this result. -/
def AllOrNothing (view : View σ) (action : Command σ α) (state : σ) (done : α → σ → Prop) : Prop :=
  match action.run.run state with
  | (.ok value, after) => done value after
  | (.error _, after) => view.Untouched state after

/-- A command that touches nothing in any case, and finds something out. -/
def Finds (view : View σ) (action : Command σ α) (state : σ) (property : α → Prop) : Prop :=
  AllOrNothing view action state fun value after => view.Untouched state after ∧ property value

section
variable {view : View σ} {state : σ} {action : Command σ α} {next : α → Command σ β}

/-- Effects come last: what may still fail follows only on steps that touch nothing. -/
theorem AllOrNothing.bind {property : α → Prop} {done : β → σ → Prop} (h : Finds view action state property)
    (hn : ∀ value after, view.Untouched state after → property value → AllOrNothing view (next value) after done) :
    AllOrNothing view (action >>= next) state done := by
  unfold Finds AllOrNothing at *
  rw [run_bind]
  cases hr : action.run.run state with
  | mk result after =>
    rw [hr] at h
    cases result with
    | error failure => exact h
    | ok value =>
      obtain ⟨untouched, hp⟩ := h
      have last := hn value after untouched hp
      dsimp only
      cases hl : (next value).run.run after with
      | mk result final =>
        rw [hl] at last
        cases result with
        | ok value => exact last
        | error failure => exact untouched.trans last

theorem AllOrNothing.of_run_ok {done : α → σ → Prop} {value : α} {after : σ}
    (h : AllOrNothing view action state done) (hr : action.run.run state = (.ok value, after)) : done value after := by
  unfold AllOrNothing at h
  rwa [hr] at h

theorem AllOrNothing.mono {done done' : α → σ → Prop} (h : AllOrNothing view action state done)
    (hd : ∀ value after, done value after → done' value after) : AllOrNothing view action state done' := by
  unfold AllOrNothing at *
  split at h
  · exact hd _ _ h
  · exact h

theorem allOrNothing_throw (view : View σ) (failure : Failure) (state : σ) (done : α → σ → Prop) :
    AllOrNothing view (throw failure) state done :=
  View.Untouched.refl state

/-- What was found out was found out by this run. -/
theorem Finds.reached {property : α → Prop} (h : Finds view action state property) :
    Finds view action state fun value => property value ∧ ∃ after, action.run.run state = (.ok value, after) := by
  unfold Finds AllOrNothing at *
  cases hr : action.run.run state with
  | mk result after =>
    rw [hr] at h
    cases result with
    | error failure => exact h
    | ok value => exact ⟨h.1, h.2, after, rfl⟩

end

/-! ## Commands -/

section
variable {host : Host (StateM σ)} {view : View σ} (lawful : host.Lawful view)
variable (path : String) (options : ParseOptions) (state : σ)
include lawful

theorem finds_readSource :
    Finds view (readSource host path) state fun text => view.Reads (view.files state) (encode path) text := by
  have sizes : Finds view (liftM (host.stat path)) state fun _ => True := ⟨lawful.stat path state, trivial⟩
  refine AllOrNothing.bind sizes fun size middle sized _ => ?_
  cases size with
  | error cause => exact allOrNothing_throw view _ middle _
  | ok size =>
    dsimp only
    split
    · exact allOrNothing_throw view _ middle _
    · have answers : Finds view (liftM (host.read path)) middle fun answer =>
          ∀ text, answer = .ok text → view.Reads (view.files middle) (encode path) text :=
        ⟨lawful.read path middle, fun text => lawful.read_ok path text middle⟩
      refine AllOrNothing.bind answers fun answer after answered ha => ?_
      cases answer with
      | error cause => exact allOrNothing_throw view _ after _
      | ok text =>
        have read := ha text rfl
        rw [sized.1] at read
        exact ⟨sized.trans answered, read⟩

theorem finds_logSteps (entries : Unit → List Log.Entry) :
    Finds view (logSteps host options entries) state fun _ => True := by
  unfold logSteps
  split
  · exact ⟨lawful.log (entries ()) state, trivial⟩
  · exact ⟨View.Untouched.refl state, trivial⟩

/-- Reading a source and logging how it is worked on touches nothing. -/
theorem AllOrNothing.ofSource {work : String → Command σ α} {entries : String → Unit → List Log.Entry}
    {done : α → σ → Prop}
    (h : ∀ text after, view.Untouched state after → view.Reads (view.files state) (encode path) text →
      AllOrNothing view (work text) after done) :
    AllOrNothing view (do
      let text ← readSource host path
      logSteps host options (entries text)
      work text) state done :=
  AllOrNothing.bind (finds_readSource lawful path state) fun text after read ht =>
    AllOrNothing.bind (finds_logSteps lawful options after (entries text)) fun _ final logged _ =>
      h text final (read.trans logged) ht

theorem lexFile_allOrNothing : AllOrNothing view (lexFile host path options) state fun _ after =>
    view.files after = view.files state := by
  refine AllOrNothing.ofSource lawful path options state fun text after untouched _ => ?_
  split
  · exact allOrNothing_throw view _ after _
  · exact (untouched.printed (lawful.print _ after)).1

theorem parseFile_allOrNothing (json : Bool) : AllOrNothing view (parseFile host path json options) state
    fun _ after => view.files after = view.files state := by
  refine AllOrNothing.ofSource lawful path options state fun text after untouched _ => ?_
  split
  · exact allOrNothing_throw view _ after _
  · exact (untouched.printed (lawful.print _ after)).1

theorem finds_compileFile : Finds view (compileFile host path options) state fun ir =>
    ∃ text, view.Reads (view.files state) (encode path) text ∧ compile text options = .ok ir := by
  refine AllOrNothing.ofSource lawful path options state fun text after untouched ht => ?_
  split
  · exact allOrNothing_throw view _ after _
  · rename_i ir hc
    exact ⟨untouched, text, ht, hc⟩

/-- With an output, the IR is written there in the end. -/
theorem buildFile_allOrNothing (output : Bytes) :
    AllOrNothing view (buildFile host path (some output) options) state fun _ after =>
      ∃ ir, (∃ now, (compileFile host path options).run.run state = (.ok ir, now)) ∧
        ∃ place, view.Wrote (view.files state) output ir place (view.files after) := by
  refine AllOrNothing.bind (finds_compileFile lawful path options state).reached
    fun ir now untouched ⟨_, compiled⟩ => ?_
  unfold AllOrNothing
  dsimp only
  rw [run_bind, run_lift]
  dsimp only
  cases hw : ((host.write output ir).run now).1 with
  | error cause => exact lawful.write_error output ir now cause hw
  | ok =>
    obtain ⟨place, wrote⟩ := lawful.write_ok output ir now hw
    -- The message after the write is printed and logged, which is not a matter of files.
    have logged := lawful.log [.event .info "wrote IR" [("output", .text (decode output)),
      ("bytes", .number ir.utf8ByteSize)]] ((host.write output ir).run now).2
    have printed := logged.printed (lawful.print ("✓ Build successful: " ++ decode output ++ "\n") _)
    rw [untouched.1, ← printed.1] at wrote
    exact ⟨ir, compiled, place, wrote⟩

theorem buildFile_none_allOrNothing : AllOrNothing view (buildFile host path none options) state fun _ after =>
    view.files after = view.files state :=
  AllOrNothing.bind (finds_compileFile lawful path options state) fun ir now untouched _ =>
    (untouched.printed (lawful.print ir now)).1

/-- Without an output, the IR is printed. -/
theorem buildFile_prints {ir : String} {now : σ} (h : (compileFile host path options).run.run state = (.ok ir, now)) :
    ∃ after, (buildFile host path none options).run.run state = (.ok (), after) ∧ view.Printed state ir after := by
  have untouched := ((finds_compileFile lawful path options state).of_run_ok h).1
  rw [buildFile, run_bind, h]
  exact ⟨_, rfl, untouched.printed (lawful.print ir now)⟩

end

/-! ## Invocations -/

namespace Invocation

/-- The file to build and where its IR is written to, if that is what is done: tokens and a tree come before. -/
def buildsTo? (invocation : Invocation) : Option (Bytes × Bytes) :=
  match invocation.lex, invocation.parse, invocation.build with
  | none, none, some ⟨file, some output⟩ => some (file, output)
  | _, _, _ => none

/-- The invocation asks for the IR of a file on the standard output, by `build` without an output, by the name of the
file alone, or by the option for it. -/
def PrintsIR (invocation : Invocation) (file : Bytes) : Prop :=
  invocation.lex = none ∧ invocation.parse = none ∧ invocation.json = false ∧
    (invocation.build = some ⟨file, none⟩ ∨
      invocation.build = none ∧
        (invocation.file = some file ∨ invocation.file = none ∧ invocation.input = some file))

theorem PrintsIR.execute_eq {invocation : Invocation} {file : Bytes} (host : Host (StateM σ))
    (h : invocation.PrintsIR file) :
    execute host invocation = buildFile host (decode file) none invocation.options := by
  obtain ⟨hl, hp, hj, hb | ⟨hb, hf | ⟨hf, hi⟩⟩⟩ := h <;> simp [execute, *]

/-- What an invocation has done to the files when it succeeds: nothing, unless it builds to an output. Then the output
alone was written, and what was written is the IR of the contents that the file had before, if its path is a text. Every
invocation that asks for the IR of the file on the standard output, with the same options, prints just that. -/
def Done (host : Host (StateM σ)) (view : View σ) (invocation : Invocation) (before after : σ) : Prop :=
  match invocation.buildsTo? with
  | none => view.files after = view.files before
  | some (file, output) =>
    ∃ text ir place, (IsText file → view.Reads (view.files before) file text) ∧
      compile text invocation.options = .ok ir ∧
      view.Wrote (view.files before) output ir place (view.files after) ∧
      ∀ other : Invocation, other.PrintsIR file → other.options = invocation.options →
        ∃ final, host.run other before = (.ok (), final) ∧ view.Printed before ir final

section
variable {host : Host (StateM σ)} {view : View σ} {invocation : Invocation} {before now after : σ}

theorem done_of_buildsTo?_eq_none (h : invocation.buildsTo? = none) (hs : view.files after = view.files before) :
    invocation.Done host view before after := by
  rwa [Done, h]

theorem done_of_compileFile (lawful : host.Lawful view) {file output : Bytes} {ir : String} {place : view.Place}
    (h : invocation.buildsTo? = some (file, output))
    (hc : (compileFile host (decode file) invocation.options).run.run before = (.ok ir, now))
    (hw : view.Wrote (view.files before) output ir place (view.files after)) :
    invocation.Done host view before after := by
  obtain ⟨-, text, ht, hir⟩ := (finds_compileFile lawful (decode file) invocation.options before).of_run_ok hc
  rw [Done, h]
  refine ⟨text, ir, place, fun named => ?_, hir, hw, fun other prints same => ?_⟩
  · rwa [named.encode_decode] at ht
  · obtain ⟨final, hr, printed⟩ := buildFile_prints lawful (decode file) invocation.options before hc
    refine ⟨final, ?_, printed⟩
    rw [Host.run, prints.execute_eq, same, hr]

end

end Invocation

theorem execute_allOrNothing {host : Host (StateM σ)} {view : View σ} (lawful : host.Lawful view)
    (invocation : Invocation) (state : σ) :
    AllOrNothing view (execute host invocation) state fun _ after => invocation.Done host view state after := by
  obtain ⟨build, file, input, lex, parse, json, alternation, trace, strict⟩ := invocation
  unfold execute
  split
  · exact allOrNothing_throw view _ state _
  · cases lex with
    | some path =>
      exact (lexFile_allOrNothing lawful (decode path) _ state).mono fun _ after same =>
        Invocation.done_of_buildsTo?_eq_none rfl same
    | none =>
      cases parse with
      | some path =>
        exact (parseFile_allOrNothing lawful (decode path) _ state json).mono fun _ after same =>
          Invocation.done_of_buildsTo?_eq_none rfl same
      | none =>
        cases build with
        | some command =>
          obtain ⟨path, output⟩ := command
          cases output with
          | some output =>
            refine (buildFile_allOrNothing lawful (decode path) _ state output).mono fun _ after done => ?_
            obtain ⟨ir, ⟨now, hc⟩, place, hw⟩ := done
            exact Invocation.done_of_compileFile lawful rfl hc hw
          | none =>
            exact (buildFile_none_allOrNothing lawful (decode path) _ state).mono fun _ after same =>
              Invocation.done_of_buildsTo?_eq_none rfl same
        | none =>
          cases hf : file.or input with
          | some path =>
            dsimp only
            exact (buildFile_none_allOrNothing lawful (decode path) _ state).mono fun _ after same =>
              Invocation.done_of_buildsTo?_eq_none rfl same
          | none =>
            dsimp only
            exact allOrNothing_throw view _ state _

/-- A working directory with one source file. -/
def oneSource : World where
  store :=
    { entries := [([encode "work"], .directory), ([encode "work", encode "f"], .file "func f() \x7b\x7d".toUTF8)]
      workingDirectory := [encode "work"] }

/-- A working directory with two source files. The path of the first is not UTF-8, and the path of the second is how
that is read. -/
def twoSources : World where
  store :=
    { entries := [([encode "work"], .directory),
        ([encode "work", [0xff, 0x2e, 0x70, 0x69, 0x6e]], .file "func f() \x7b\x7d".toUTF8),
        ([encode "work", encode "\ufffd.pin"], .file "func g() \x7b\x7d".toUTF8)]
      workingDirectory := [encode "work"] }

end FuncIR.Cli

import Electorate.Command

/-! What actions do one after the other, from what each does alone. -/
namespace Electorate

namespace Script
variable {α β : Type}

/-- The second script runs on the files that the first one leaves, and its lines come after. -/
theorem runOn_andThen (s : Script α) (f : α → Script β) (d : Disk) :
    (s.andThen f).runOn d =
      let first := s.runOn d
      let later := (f first.value).runOn first.files
      { later with printed := first.printed ++ later.printed } := by
  induction s generalizing d with
  | done a => rfl
  | read path next ih => exact ih ((d.read path).mapError FileFault.message) d
  | write path text next ih =>
    simp only [andThen, runOn]
    cases d.write path text with
    | ok d' => exact ih (.ok ()) d'
    | error fault => exact ih (.error fault.message) d
  | print line next ih =>
    simp only [andThen, runOn, ih]
    rfl

end Script

namespace Action
variable {α β : Type}

/-- What an action comes to: its result or error, the files as it leaves them, and its lines. -/
def on (a : Action α) (d : Disk) : Script.Outcome (Except Error α) := Script.runOn d a.run

section
variable {a : Action α} {d d' : Disk} {lines : List String}

/-- The second action finds the disk as the first one leaves it. -/
theorem on_bind_of_ok {x : α} (h : a.on d = ⟨.ok x, d', lines⟩) (f : α → Action β) :
    (a >>= f).on d =
      { (f x).on d' with printed := lines ++ ((f x).on d').printed } := by
  have hseq : (a >>= f).on d = (a.run.andThen (ExceptT.bindCont f)).runOn d := rfl
  have hfirst : a.run.runOn d = ⟨.ok x, d', lines⟩ := h
  rw [hseq, Script.runOn_andThen, hfirst]
  rfl

/-- What comes after an error is not done. -/
theorem on_bind_of_error {e : Error} (h : a.on d = ⟨.error e, d', lines⟩) (f : α → Action β) :
    (a >>= f).on d = ⟨.error e, d', lines⟩ := by
  have hseq : (a >>= f).on d = (a.run.andThen (ExceptT.bindCont f)).runOn d := rfl
  have hfirst : a.run.runOn d = ⟨.error e, d', lines⟩ := h
  have hstop : (ExceptT.bindCont f (.error e)).runOn d' = ⟨.error e, d', []⟩ := rfl
  rw [hseq, Script.runOn_andThen, hfirst]
  simp only [hstop, List.append_nil]

theorem on_bind_of_quiet {x : α} (h : a.on d = ⟨.ok x, d, []⟩) (f : α → Action β) :
    (a >>= f).on d = (f x).on d := by
  rw [on_bind_of_ok h]
  rfl

end

theorem on_readFile (path : String) (d : Disk) : (readFile path).on d =
    ⟨((d.read path).mapError FileFault.message).mapError Error.file, d, []⟩ := rfl

theorem on_ofExcept (e : Except Error α) (d : Disk) : (ofExcept e).on d = ⟨e, d, []⟩ := rfl

theorem on_writeFile_of_ok {path text : String} {d d' : Disk} (h : d.write path text = .ok d') :
    (writeFile path text).on d = ⟨.ok (), d', []⟩ := by
  rw [on, writeFile, ExceptT.run, ExceptT.mk, Script.runOn, h]
  rfl

/-- The action changes no file and prints nothing, whether it comes to a result or to an error. -/
def Quiet (a : Action α) : Prop := ∀ d, ∃ v, a.on d = ⟨v, d, []⟩

theorem quiet_readFile (path : String) : Quiet (readFile path) :=
  fun d => ⟨_, on_readFile path d⟩

theorem quiet_ofExcept (e : Except Error α) : Quiet (ofExcept e) :=
  fun d => ⟨e, on_ofExcept e d⟩

theorem quiet_pure (x : α) : Quiet (pure x : Action α) := fun _ => ⟨.ok x, rfl⟩

theorem Quiet.bind {a : Action α} (ha : Quiet a) {f : α → Action β} (hf : ∀ x, Quiet (f x)) :
    Quiet (a >>= f) := by
  intro d
  obtain ⟨v, hv⟩ := ha d
  cases v with
  | error e => exact ⟨.error e, on_bind_of_error hv f⟩
  | ok x =>
    obtain ⟨w, hw⟩ := hf x d
    exact ⟨w, (on_bind_of_quiet hv f).trans hw⟩

end Action

theorem Command.on_printLines (lines : List String) (d : Disk) :
    (Command.printLines lines).on d = ⟨.ok (), d, lines⟩ := by
  induction lines with
  | nil => rfl
  | cons line lines ih =>
    have hfirst : (Action.printLine line).on d = ⟨.ok (), d, [line]⟩ := rfl
    have hseq : Command.printLines (line :: lines) =
        Action.printLine line >>= fun _ => Command.printLines lines := rfl
    rw [hseq, Action.on_bind_of_ok hfirst, ih]
    rfl

end Electorate

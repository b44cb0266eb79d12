/-
The output along a run.  Only print statements write, and they write behind what
is there: the texts of a statement one after another, up to the first that does
not fit.  So the output of a run only grows, and neither its limit nor whether it
can be flushed ever changes.  Where it can be flushed, a program comes to what its
statements come to.
-/
import LineScript.Proofs.ConstantVariables
import LineScript.Proofs.InPlaceChange
import LineScript.Proofs.RunTrace

namespace LineScript

namespace OutputStream

/-- The output with a text behind what is written. -/
def appended (output : OutputStream) (text : String) : OutputStream :=
  { output with written := output.written ++ text }

@[simp]
theorem appended_empty (output : OutputStream) : output.appended "" = output := by
  simp [appended]

@[simp]
theorem appended_appended (output : OutputStream) (first second : String) :
    (output.appended first).appended second = output.appended (first ++ second) := by
  simp [appended, String.append_assoc]

/-- Texts are written to the last one, or up to one that does not fit. -/
theorem writeAll_cases (output : OutputStream) (texts : List String) :
    output.writeAll texts = (.ok (), output.appended (String.join texts)) ∨
    ∃ done text later, texts = done ++ text :: later ∧
      (output.appended (String.join done)).fits text = false ∧
      output.writeAll texts =
        (.error (.stream "output limit"),
          output.appended (String.join done)) := by
  induction texts generalizing output with
  | nil => exact Or.inl (by simp [writeAll])
  | cons text later ih =>
      cases hfits : output.fits text with
      | false =>
          have hwrite : output.write text =
              (.error (.stream "output limit"), output) :=
            if_neg (by simp [hfits])
          refine Or.inr ⟨[], text, later, rfl, ?_, ?_⟩
          · simpa using hfits
          · simp [writeAll, hwrite]
      | true =>
          have hwrite : output.write text = (.ok (), output.appended text) :=
            if_pos hfits
          have hall : output.writeAll (text :: later) =
              (output.appended text).writeAll later := by
            simp only [writeAll, hwrite]
          rw [hall]
          rcases ih (output.appended text) with
            hlater | ⟨done, failed, rest, rfl, hfull, hlater⟩
          · rw [appended_appended, ← String.join_cons] at hlater
            exact Or.inl hlater
          · rw [appended_appended, ← String.join_cons] at hfull hlater
            exact Or.inr ⟨text :: done, failed, rest, rfl, hfull, hlater⟩

/-- An output that has more text than another one, and is else the same. -/
def Grows (before after : OutputStream) : Prop :=
  ∃ more, after = before.appended more

namespace Grows

theorem refl (output : OutputStream) : output.Grows output :=
  ⟨"", output.appended_empty.symm⟩

theorem trans {first second third : OutputStream}
    (hfirst : first.Grows second) (hsecond : second.Grows third) :
    first.Grows third := by
  obtain ⟨more, rfl⟩ := hfirst
  obtain ⟨rest, rfl⟩ := hsecond
  exact ⟨more ++ rest, appended_appended first more rest⟩

theorem writeAll (output : OutputStream) (texts : List String) :
    output.Grows (output.writeAll texts).2 := by
  rcases output.writeAll_cases texts with hall | ⟨_, _, _, _, _, hfailed⟩
  · exact ⟨_, congrArg Prod.snd hall⟩
  · exact ⟨_, congrArg Prod.snd hfailed⟩

theorem limit_eq {before after : OutputStream} (hgrows : before.Grows after) :
    after.limit = before.limit := by
  obtain ⟨more, rfl⟩ := hgrows
  rfl

theorem flush_eq {before after : OutputStream} (hgrows : before.Grows after) :
    after.flush = before.flush := by
  obtain ⟨more, rfl⟩ := hgrows
  rfl

end Grows

end OutputStream

namespace Machine

theorem output_readInto (machine : Machine) (kind : StatementKind)
    (token : String) :
    (machine.readInto kind token).2.output = machine.output := by
  simp only [readInto]
  repeat' split
  all_goals rfl

theorem output_readAll (machine : Machine) (kind : StatementKind)
    (tokens : List String) :
    (machine.readAll kind tokens).2.output = machine.output :=
  readAll_keeps Machine.output
    (fun machine token => output_readInto machine kind token) machine tokens

/-- The output only grows along a run. -/
theorem respected_grows :
    Respected fun before after => before.output.Grows after.output where
  refl machine := .refl machine.output
  trans hfirst hsecond := hfirst.trans hsecond
  perform machine statement handler := by
    by_cases hprint : handler = .print
    · subst hprint
      exact .writeAll machine.output _
    · have hsame : (machine.perform statement handler).2.output =
          machine.output := by
        by_cases hread : handler = .read
        · subst hread
          simp only [perform, read]
          split
          · rw [output_readAll]
          · rfl
        · exact (streams_perform machine statement hprint hread).2
      rw [hsame]
      exact .refl machine.output
  scope hbody := hbody
  call hbody := hbody

theorem flush_of_execute {budget : Nat} {program : Program}
    {machine : Machine} {outcome : Outcome}
    (hrun : execute budget program machine = some outcome) :
    outcome.2.output.flush = machine.output.flush := by
  have hgrows := execute_related respected_grows
    (fun machine _ => .refl machine.output) hrun
  exact hgrows.flush_eq

/-- A program comes to an outcome. -/
def Executes (program : Program) (machine : Machine) (outcome : Outcome) :
    Prop :=
  ∃ budget, execute budget program machine = some outcome

/-- Where the output can be flushed, a program comes to what its statements come
to. -/
theorem executes_iff_runsTo {program : Program} {machine : Machine}
    {outcome : Outcome} (hflush : machine.output.flush = .ok ()) :
    Executes program machine outcome ↔
      RunsTo program.statements (machine.declareArguments program.arguments)
        outcome := by
  rw [Executes, exists_execute_iff, runsTo_iff_exists_completes]
  constructor
  · rintro ⟨trace, ended, hcompletes, hflushed⟩
    have hgrows := hcompletes.related respected_grows
    rw [← flushed_snd, hflushed] at hgrows
    obtain rfl := eq_of_flushed hflushed (hgrows.flush_eq.trans hflush)
    exact ⟨trace, hcompletes⟩
  · rintro ⟨trace, hcompletes⟩
    have hgrows := hcompletes.related respected_grows
    have hflushes : outcome.2.output.flush = .ok () :=
      hgrows.flush_eq.trans hflush
    refine ⟨trace, outcome, hcompletes, ?_⟩
    rw [flushed, hflushes]

end Machine

end LineScript

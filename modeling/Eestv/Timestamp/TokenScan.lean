import Eestv.Timestamp.DateCheck
import Eestv.Timestamp.TokenRun

/-! A run of the steps of a format is a scan of the text behind the start index, as far as the
tokens read; the text in front and the old contents of the output have no part in it. -/

namespace Eestv
open StringView

/-- How far the tokens read a text: to the end of the format or not, how many characters, and
what they set. -/
structure Scan where
  complete : Bool
  length : ℕ
  updates : List Update
deriving DecidableEq, Repr

def scanTokens : List Token → List Char → Scan
  | [], _ => ⟨true, 0, []⟩
  | t :: ts, cs =>
    match t.read cs with
    | none => ⟨false, 0, []⟩
    | some (n, u) =>
      let rest := scanTokens ts (cs.drop n)
      ⟨rest.complete, n + rest.length, u :: rest.updates⟩

variable {ts : List Token} {cs : List Char} {text : StringView} {i : ℕ}

theorem readTokens_eq_scan (ts : List Token) (cs : List Char) :
    readTokens ts cs = if (scanTokens ts cs).complete then
      some ((scanTokens ts cs).length, (scanTokens ts cs).updates) else none := by
  induction ts generalizing cs with
  | nil => rfl
  | cons t ts ih =>
    rw [readTokens, scanTokens]
    cases t.read cs with
    | none => rfl
    | some r =>
      obtain ⟨n, u⟩ := r
      rw [Option.bind_some, ih]
      dsimp only
      split <;> rfl

theorem readTokens_of_complete (h : (scanTokens ts cs).complete = true) :
    readTokens ts cs = some ((scanTokens ts cs).length, (scanTokens ts cs).updates) := by
  rw [readTokens_eq_scan, if_pos h]

def Scan.result (s : Scan) (i : ℕ) (output : DateAndTime)
    (rest : ℤ → DateAndTime → StepResult) : StepResult :=
  if s.complete then rest ((i + s.length : ℕ) : ℤ) (s.updates.foldl Update.apply output)
  else ⟨false, (i + s.length : ℕ), s.updates.foldl Update.apply output⟩

theorem runSteps_scan (hdigits : ∀ t ∈ ts, ∀ n, t = .fraction n → n ≤ 9)
    (rest : List DateAndTimeParserStep) (hi : i ≤ text.size) (output : DateAndTime) :
    runSteps text (ts.map Token.step ++ rest) i output =
      (scanTokens ts (text.suffix i)).result i output (runSteps text rest) := by
  induction ts generalizing i output with
  | nil => rfl
  | cons t ts ih =>
    rw [List.map_cons, List.cons_append, runSteps,
      t.step_reads (hdigits t List.mem_cons_self) hi 0 output, scanTokens]
    cases hread : t.read (text.suffix i) with
    | none => rfl
    | some r =>
      obtain ⟨n, u⟩ := r
      have hle := (t.read_spec (hdigits t List.mem_cons_self) hread).le_length
      rw [suffix_length] at hle
      have hn : i + n ≤ text.size := by omega
      rw [StepResult.ofRead, if_pos rfl]
      dsimp only
      rw [← Int.natCast_add, ih (fun v hv => hdigits v (List.mem_cons_of_mem t hv)) hn,
        suffix_drop, Scan.result, Scan.result]
      dsimp only
      rw [List.foldl_cons, Nat.add_assoc]

theorem runSteps_dateCheck_eq (text text' : StringView) (ts : List Token) (i j : ℤ)
    (d : DateAndTime) :
    runSteps text (dateCheck ts) i d =
      ⟨(runSteps text' (dateCheck ts) j d).accepted, i, d⟩ := by
  obtain ⟨hout, hjump, haccepted⟩ := runSteps_dateCheck text ts i d
  obtain ⟨-, -, haccepted'⟩ := runSteps_dateCheck text' ts j d
  have hsame := Bool.eq_iff_iff.mpr (haccepted.trans haccepted'.symm)
  generalize runSteps text (dateCheck ts) i d = r at hout hjump hsame
  obtain ⟨accepted, jump, output⟩ := r
  obtain rfl : output = d := hout
  obtain rfl : jump = i := hjump
  rw [show accepted = _ from hsame]

end Eestv

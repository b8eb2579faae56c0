import Mathlib.Data.List.Basic
import GovernedConfig.Text.Blank

/-! # Words

A text is taken apart at its blanks in one way only: into the longest runs of other characters.
-/

namespace GovernedConfig.Text

/-- The runs into which blanks divide some characters: each is preceded by nothing but blanks, and followed by a
blank or by nothing. -/
inductive Splits : List Char → List (List Char) → Prop
  | blank {cs : List Char} : (∀ c ∈ cs, isBlank c = true) → Splits cs []
  | run {blanks run rest : List Char} {others : List (List Char)} : (∀ c ∈ blanks, isBlank c = true) → run ≠ [] →
      (∀ c ∈ run, isBlank c = false) → (∀ c ∈ rest.head?, isBlank c = true) → Splits rest others →
        Splits (blanks ++ (run ++ rest)) (run :: others)

variable {c : Char} {cs rest : List Char} {others : List (List Char)}

theorem runs_append_of_blank {blanks : List Char} (h : ∀ c ∈ blanks, isBlank c = true) (cs : List Char) :
    runs (blanks ++ cs) = runs cs := by
  induction blanks with
  | nil => rfl
  | cons b blanks ih =>
    rw [List.cons_append, runs_blank (h b List.mem_cons_self), ih fun c hc => h c (List.mem_cons_of_mem b hc)]

theorem runs_run {word : List Char} (hw : ∀ x ∈ c :: word, isBlank x = false) : runs (c :: word) = [c :: word] := by
  induction word generalizing c with
  | nil =>
    rw [runs_cons]
    exact if_neg (by simp [hw c List.mem_cons_self])
  | cons d word ih =>
    have hrest : runs (d :: word) = [d :: word] := ih fun x hx => hw x (List.mem_cons_of_mem _ hx)
    exact runs_cons_run (hw c (by simp)) (hw d (by simp)) hrest

theorem Splits.eq_runs (h : Splits cs others) : others = runs cs := by
  induction h with
  | @blank cs hb => rw [← List.append_nil cs, runs_append_of_blank hb, show runs [] = [] from rfl]
  | @run blanks run rest others hb hr hw hrest _ ih =>
    obtain ⟨c, word, rfl⟩ := List.exists_cons_of_ne_nil hr
    rw [runs_append_of_blank hb]
    cases rest with
    | nil => rw [ih, List.append_nil, runs_run hw, show runs [] = [] from rfl]
    | cons d rest =>
      have hd : isBlank d = true := hrest d rfl
      rw [ih, List.cons_append, runs_append_blank hw hd, runs_blank hd]

theorem Splits.cons_blank (hc : isBlank c = true) (h : Splits cs others) : Splits (c :: cs) others := by
  cases h with
  | blank hb => exact .blank (List.forall_mem_cons.mpr ⟨hc, hb⟩)
  | @run blanks run rest others hb hr hw hrest h =>
    exact @Splits.run (c :: blanks) run rest others (List.forall_mem_cons.mpr ⟨hc, hb⟩) hr hw hrest h

theorem Splits.cons_run {d : Char} {run : List Char} (hc : isBlank c = false) (hd : isBlank d = false)
    (h : Splits (d :: cs) (run :: others)) : Splits (c :: d :: cs) ((c :: run) :: others) := by
  generalize he : d :: cs = ds at h
  cases h with
  | @run blanks run rest others hb hr hw hrest h =>
    cases blanks with
    | nil =>
      exact @Splits.run [] (c :: run) rest others (by simp) (by simp) (List.forall_mem_cons.mpr ⟨hc, hw⟩) hrest h
    | cons b blanks =>
      cases he
      rw [hb d List.mem_cons_self] at hd
      cases hd

theorem Splits.cons_single (hc : isBlank c = false) (hrest : ∀ d ∈ cs.head?, isBlank d = true)
    (h : Splits cs others) : Splits (c :: cs) ([c] :: others) :=
  @Splits.run [] [c] cs others (by simp) (by simp) (by simpa using hc) hrest h

theorem splits_runs (cs : List Char) : Splits cs (runs cs) := by
  induction cs with
  | nil => exact .blank (by simp)
  | cons c cs ih =>
    cases hc : isBlank c with
    | true =>
      rw [runs_blank hc]
      exact ih.cons_blank hc
    | false =>
      cases cs with
      | nil =>
        rw [runs_run (by simpa using hc)]
        exact ih.cons_single hc (by simp)
      | cons d cs =>
        cases hd : isBlank d with
        | true =>
          rw [runs_cons_blank hc hd, ← runs_blank hd]
          exact ih.cons_single hc (by simpa using hd)
        | false =>
          -- the run of `d` is there, since `d` is no blank
          cases hr : runs (d :: cs) with
          | nil =>
            have hnone := flatten_runs (d :: cs)
            rw [hr, List.filter_cons_of_pos (by simp [hd])] at hnone
            cases hnone
          | cons run others =>
            rw [hr] at ih
            rw [runs_cons_run hc hd hr]
            exact ih.cons_run hc hd

/-- There is one way to take a text apart, and it is the one into runs. -/
theorem splits_iff : Splits cs others ↔ others = runs cs := by
  constructor
  · exact Splits.eq_runs
  · rintro rfl
    exact splits_runs cs

end GovernedConfig.Text

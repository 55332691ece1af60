import Mathlib

/-! Lines in one stream, each closed by a mark that none of them contains. Any
prefix of the stream is some whole lines and a tail without the mark. -/
namespace Lines
variable {β : Type}

/-- The lines, each followed by the mark. -/
def joined (mark : β) (lines : List (List β)) : List β := lines.flatMap (· ++ [mark])

variable {mark : β} {line : List β} {lines : List (List β)}

@[simp] theorem joined_nil : joined mark [] = [] := rfl

theorem joined_cons (line : List β) (lines : List (List β)) :
    joined mark (line :: lines) = line ++ mark :: joined mark lines := by
  simp [joined]

theorem joined_append (before after : List (List β)) :
    joined mark (before ++ after) = joined mark before ++ joined mark after := by
  simp [joined]

theorem prefix_append_cases {stream before after : List β} (h : stream <+: before ++ after) :
    (∃ rest, before = stream ++ rest ∧ rest ≠ []) ∨ ∃ more, stream = before ++ more ∧ more <+: after := by
  obtain ⟨rest, hrest⟩ := h
  rcases List.append_eq_append_iff.mp hrest with ⟨middle, hbefore, -⟩ | ⟨middle, hstream, hafter⟩
  · by_cases hmiddle : middle = []
    · exact .inr ⟨[], by simp [hbefore, hmiddle], List.nil_prefix⟩
    · exact .inl ⟨middle, hbefore, hmiddle⟩
  · exact .inr ⟨middle, hstream, rest, hafter.symm⟩

/-- A prefix of the stream keeps exactly the lines whose mark lies within it, and
what follows them is a tail without the mark. -/
theorem exists_cut {stream : List β} (hlines : ∀ line ∈ lines, mark ∉ line)
    (h : stream <+: joined mark lines) :
    ∃ kept tail, kept ≤ lines.length ∧ stream = joined mark (lines.take kept) ++ tail ∧ mark ∉ tail ∧
      ∀ k < lines.length, k < kept ↔ (joined mark (lines.take (k + 1))).length ≤ stream.length := by
  induction lines generalizing stream with
  | nil =>
    rw [joined_nil, List.prefix_nil] at h
    exact ⟨0, [], le_rfl, by simp [h], by simp, by simp⟩
  | cons line lines ih =>
    rw [joined_cons, List.append_cons] at h
    rcases prefix_append_cases h with ⟨rest, hline, hrest⟩ | ⟨more, rfl, hmore⟩
    · -- the cut falls before the first mark
      have hlast : stream <+: line := by
        obtain ⟨init, last, rfl⟩ := (List.eq_nil_or_concat rest).resolve_left hrest
        rw [List.concat_eq_append, ← List.append_assoc] at hline
        exact ⟨init, (List.append_inj_left' hline rfl).symm⟩
      refine ⟨0, stream, Nat.zero_le _, rfl, fun hmem => ?_, fun k _ => ?_⟩
      · exact hlines line List.mem_cons_self (hlast.subset hmem)
      · have hlength := hlast.length_le
        rw [List.take_succ_cons, joined_cons, List.length_append, List.length_cons]
        omega
    · obtain ⟨kept, tail, hkept, rfl, htail, hwithin⟩ :=
        ih (fun other hmem => hlines other (List.mem_cons_of_mem _ hmem)) hmore
      refine ⟨kept + 1, tail, Nat.succ_le_succ hkept, ?_, htail, fun k hk => ?_⟩
      · rw [List.take_succ_cons, joined_cons]
        simp
      · cases k with
        | zero => simp [joined_cons]
        | succ k =>
          have hbefore := hwithin k (Nat.succ_lt_succ_iff.mp hk)
          rw [List.take_succ_cons, joined_cons]
          simp only [List.length_append, List.length_cons, List.length_nil] at hbefore ⊢
          omega

end Lines

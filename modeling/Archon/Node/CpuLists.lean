import Archon.Lib.Ranges
import Archon.Node.Pinning

/-! CPU lists. The agent writes the processors of a lease as a list of ranges and reads
such lists back. A list in ascending order is written with as few ranges as there can be,
and the reader returns it as it was. -/
namespace Archon.Node
open Archon.Kernel Fallible

/-! The writer. -/

structure CpuList where
  numbers : List UInt32

/-- Takes numbers off the list while each is the one after the range. The last number of
the range and what is left. -/
def extendRange (last : UInt32) : List UInt32 → UInt32 × List UInt32
  | [] => (last, [])
  | next :: rest => if next = last + 1 then extendRange next rest else (last, next :: rest)

theorem extendRange_length (last : UInt32) (rest : List UInt32) :
    (extendRange last rest).2.length ≤ rest.length := by
  fun_induction extendRange last rest with
  | case1 => exact le_rfl
  | case2 last rest ih => exact ih.trans (Nat.le_succ _)
  | case3 => exact le_rfl

def rangeText (start last : UInt32) : String :=
  if start = last then toString start.toNat else toString start.toNat ++ "-" ++ toString last.toNat

def pushRange (out : String) (start last : UInt32) : String :=
  (if out = "" then out else out.push ',') ++ rangeText start last

def renderFrom (out : String) : List UInt32 → String
  | [] => out
  | start :: rest =>
    let range := extendRange start rest
    renderFrom (pushRange out start range.1) range.2
termination_by numbers => numbers.length
decreasing_by exact Nat.lt_succ_of_le (extendRange_length start rest)

def CpuList.render (self : CpuList) : String := renderFrom "" self.numbers

/-! The reader. -/

def trim (text : String) : String :=
  String.ofList ((text.toList.dropWhile Discover.isWhiteSpace).reverse.dropWhile
    Discover.isWhiteSpace).reverse

/-- The numbers from start to last, both included. -/
def inclusive (start last : UInt32) : List UInt32 :=
  (List.range' start.toNat (last.toNat + 1 - start.toNat)).map UInt32.ofNat

def parsePart (part : String) : Except String (List UInt32) := do
  let (start, last) := (splitOnce '-' part).getD (part, part)
  let start ← okOr (parseU32 (trim start)) s!"invalid CPU range {DebugText.quoted part}"
  let last ← okOr (parseU32 (trim last)) s!"invalid CPU range {DebugText.quoted part}"
  refuseIf (last < start) s!"inverted CPU range {DebugText.quoted part}"
  return inclusive start last

/-- The parts of a list that say something. -/
def cpuParts (list : String) : List String :=
  ((list.toList.splitOn ',').map String.ofList).filter (· ≠ "")

def parseCpuList (list : String) : Except String (List UInt32) :=
  (cpuParts list).foldlM (fun cpus part => do return cpus ++ (← parsePart part)) []

/-! Ranges and their numbers. -/

structure CpuRange where
  first : UInt32
  last : UInt32
  ordered : first ≤ last

namespace CpuRange

def text (self : CpuRange) : String := rangeText self.first self.last

def numbers (self : CpuRange) : List UInt32 := inclusive self.first self.last

def interval (self : CpuRange) : NonemptyInterval ℕ :=
  ⟨⟨self.first.toNat, self.last.toNat⟩, UInt32.le_iff_toNat_le.mp self.ordered⟩

/-- The ranges as a list says them. -/
def listText (ranges : List CpuRange) : String := ",".intercalate (ranges.map text)

variable {range : CpuRange} {ranges : List CpuRange}

theorem numbers_toNat : range.numbers.map UInt32.toNat = Ranges.numbers range.interval := by
  have hsmall := range.last.toNat_lt
  rw [numbers, inclusive, List.map_map, Ranges.numbers]
  refine (List.map_congr_left fun n hn => ?_).trans (List.map_id _)
  rw [List.mem_range'_1] at hn
  exact UInt32.toNat_ofNat_of_lt' (by show n < 2 ^ 32; omega)

theorem flatMap_numbers_toNat :
    (ranges.flatMap numbers).map UInt32.toNat = (ranges.map interval).flatMap Ranges.numbers := by
  rw [List.map_flatMap, List.flatMap_map]
  exact List.flatMap_congr fun range _ => numbers_toNat

end CpuRange

theorem toNat_succ {n : UInt32} (h : n.toNat + 1 ≠ 2 ^ 32) : (n + 1).toNat = n.toNat + 1 := by
  have hsmall := n.toNat_lt
  rw [UInt32.toNat_add]
  exact Nat.mod_eq_of_lt (by show n.toNat + 1 < 2 ^ 32; omega)

theorem inclusive_self (n : UInt32) : inclusive n n = [n] := by
  simp [inclusive]

theorem inclusive_cons {start last : UInt32} (h : start < last) :
    inclusive start last = start :: inclusive (start + 1) last := by
  have hlt := UInt32.lt_iff_toNat_lt.mp h
  have hsmall := last.toNat_lt
  have hnext : (start + 1).toNat = start.toNat + 1 := toNat_succ (by omega)
  have hcount : last.toNat + 1 - start.toNat = (last.toNat + 1 - (start.toNat + 1)) + 1 := by omega
  rw [inclusive, hcount, List.range'_succ, List.map_cons, UInt32.ofNat_toNat, inclusive, hnext]

/-! What the writer writes. -/

theorem extendRange_numbers {last : UInt32} {rest : List UInt32}
    (hsmall : ∀ n ∈ last :: rest, n.toNat + 1 ≠ 2 ^ 32) :
    last ≤ (extendRange last rest).1 ∧
      last :: rest = inclusive last (extendRange last rest).1 ++ (extendRange last rest).2 ∧
      ∀ next ∈ (extendRange last rest).2.head?, next.toNat ≠ (extendRange last rest).1.toNat + 1 := by
  have hlast := toNat_succ (hsmall last List.mem_cons_self)
  fun_induction extendRange last rest with
  | case1 last => exact ⟨UInt32.le_refl _, by simp [inclusive_self], by simp⟩
  | case2 last rest ih =>
    have hrest : ∀ n ∈ (last + 1) :: rest, n.toNat + 1 ≠ 2 ^ 32 := fun n hn =>
      hsmall n (List.mem_cons_of_mem _ hn)
    obtain ⟨hle, hnumbers, hhead⟩ := ih hrest (toNat_succ (hrest _ List.mem_cons_self))
    have hlt : last < (extendRange (last + 1) rest).1 := by
      rw [UInt32.lt_iff_toNat_lt]
      rw [UInt32.le_iff_toNat_le] at hle
      omega
    refine ⟨UInt32.le_of_lt hlt, ?_, hhead⟩
    rw [inclusive_cons hlt, List.cons_append, ← hnumbers]
  | case3 last next rest hnext =>
    refine ⟨UInt32.le_refl _, by simp [inclusive_self], ?_⟩
    intro other hother heq
    rw [List.head?_cons, Option.mem_some_iff] at hother
    subst hother
    exact hnext (UInt32.toNat_inj.mp (heq.trans hlast.symm))

namespace CpuRange
variable {range : CpuRange} {ranges : List CpuRange}

theorem head?_numbers : range.numbers.head? = some range.first := by
  rcases UInt32.le_iff_lt_or_eq.mp range.ordered with hlt | heq
  · rw [numbers, inclusive_cons hlt, List.head?_cons]
  · rw [numbers, ← heq, inclusive_self, List.head?_cons]

theorem head?_flatMap (h : range ∈ ranges.head?) : range.first ∈ (ranges.flatMap numbers).head? := by
  cases ranges with
  | nil => cases h
  | cons first more =>
    rw [List.head?_cons, Option.mem_some_iff] at h
    rw [List.flatMap_cons, List.head?_append, head?_numbers, h]
    rfl

/-- No range ends right before the next one starts. -/
def Broken (ranges : List CpuRange) : Prop :=
  ranges.IsChain fun range next => next.first.toNat ≠ range.last.toNat + 1

end CpuRange

theorem renderFrom_ranges {numbers : List UInt32} (out : String) (hsmall : ∀ n ∈ numbers, n.toNat + 1 ≠ 2 ^ 32) :
    ∃ ranges : List CpuRange,
      renderFrom out numbers = ranges.foldl (fun out range => pushRange out range.first range.last) out ∧
      ranges.flatMap CpuRange.numbers = numbers ∧ CpuRange.Broken ranges := by
  fun_induction renderFrom out numbers with
  | case1 out => exact ⟨[], rfl, rfl, .nil⟩
  | case2 out start rest range ih =>
    obtain ⟨hordered, hnumbers, hhead⟩ := extendRange_numbers hsmall
    obtain ⟨ranges, htext, hleft, hbroken⟩ := ih fun n hn =>
      hsmall n (hnumbers ▸ List.mem_append_right _ hn)
    refine ⟨⟨start, range.1, hordered⟩ :: ranges, htext, ?_, ?_⟩
    · rw [List.flatMap_cons, hleft]
      exact hnumbers.symm
    · refine List.isChain_cons.mpr ⟨fun next hnext => hhead next.first ?_, hbroken⟩
      have hfirst := CpuRange.head?_flatMap hnext
      rw [hleft] at hfirst
      exact hfirst

theorem rangeText_ne_empty (start last : UInt32) : rangeText start last ≠ "" := by
  unfold rangeText
  split <;> simp [← String.toList_inj, Nat.toDigits_ne_nil]

/-- The marks stand between the ranges, and only there. -/
theorem foldl_pushRange {out : String} (h : out ≠ "") (ranges : List CpuRange) :
    ranges.foldl (fun out range => pushRange out range.first range.last) out =
      ",".intercalate (out :: ranges.map CpuRange.text) := by
  induction ranges generalizing out with
  | nil => simp
  | cons range more ih =>
    have hpush : pushRange out range.first range.last = out ++ "," ++ range.text := by
      rw [pushRange, if_neg h]
      rfl
    have hne : out ++ "," ++ range.text ≠ "" := fun heq =>
      rangeText_ne_empty _ _ (String.append_eq_empty_iff.mp heq).2
    rw [List.foldl_cons, hpush, ih hne, List.map_cons, String.intercalate_cons_append,
      String.intercalate_cons_cons]

theorem foldl_pushRange_empty (ranges : List CpuRange) :
    ranges.foldl (fun out range => pushRange out range.first range.last) "" = CpuRange.listText ranges := by
  cases ranges with
  | nil => rfl
  | cons range more =>
    have hpush : pushRange "" range.first range.last = range.text := by
      rw [pushRange, if_pos rfl, String.empty_append]
      rfl
    have hne : range.text ≠ "" := rangeText_ne_empty _ _
    rw [List.foldl_cons, hpush, foldl_pushRange hne]
    rfl

/-! What the reader reads. -/

section Reader
variable {text part : String}

theorem trim_eq (h : ∀ c ∈ text.toList, Discover.isWhiteSpace c = false) : trim text = text := by
  have hkept : ∀ chars : List Char, (∀ c ∈ chars, Discover.isWhiteSpace c = false) →
      chars.dropWhile Discover.isWhiteSpace = chars := by
    intro chars hchars
    cases chars with
    | nil => rfl
    | cons c rest => exact List.dropWhile_cons_of_neg (by simp [hchars c List.mem_cons_self])
  rw [trim, hkept _ h, hkept _ fun c hc => h c (List.mem_reverse.mp hc), List.reverse_reverse,
    String.ofList_toList]

theorem isWhiteSpace_of_isDigit {c : Char} (h : c.isDigit = true) : Discover.isWhiteSpace c = false := by
  have hbounds : 48 ≤ c.toNat ∧ c.toNat ≤ 57 := Char.isDigit_iff_toNat.mp h
  unfold Discover.isWhiteSpace
  simp
  omega

/-- The decimal text of a number. -/
def digits (n : UInt32) : String := String.ofList (Nat.toDigits 10 n.toNat)

theorem parseU32_trim_digits (n : UInt32) : parseU32 (trim (digits n)) = some n := by
  have hclear : ∀ c ∈ (digits n).toList, Discover.isWhiteSpace c = false := by
    intro c hc
    rw [digits, String.toList_ofList] at hc
    have hdigit := Nat.isDigit_of_mem_toDigits (by decide) (by decide) hc
    exact isWhiteSpace_of_isDigit hdigit
  rw [trim_eq hclear]
  exact parseU32_toDigits n

theorem notMem_digits {mark : Char} (hmark : mark.isDigit = false) (n : UInt32) : mark ∉ (digits n).toList := by
  intro hmem
  rw [digits, String.toList_ofList] at hmem
  exact absurd (Nat.isDigit_of_mem_toDigits (by decide) (by decide) hmem) (by simp [hmark])

theorem splitOnce_none {mark : Char} (h : mark ∉ text.toList) : splitOnce mark text = none := if_neg h

theorem splitOnce_some {mark : Char} {before after : String} (h : mark ∉ before.toList)
    (htext : text.toList = before.toList ++ mark :: after.toList) :
    splitOnce mark text = some (before, after) := by
  have hclear : ∀ c ∈ before.toList, decide (c ≠ mark) = true := by
    intro c hc
    rw [decide_eq_true_eq]
    rintro rfl
    exact h hc
  have hmem : mark ∈ text.toList := htext ▸ List.mem_append_right _ List.mem_cons_self
  rw [splitOnce, if_pos hmem, htext, List.takeWhile_append_of_pos hclear,
    List.dropWhile_append_of_pos hclear]
  simp

theorem rangeText_self (n : UInt32) : rangeText n n = digits n := by
  rw [rangeText, if_pos rfl]
  rfl

theorem rangeText_of_ne {start last : UInt32} (h : start ≠ last) :
    rangeText start last = digits start ++ "-" ++ digits last := by
  rw [rangeText, if_neg h]
  rfl

theorem splitOnce_rangeText (start last : UInt32) :
    (splitOnce '-' (rangeText start last)).getD (rangeText start last, rangeText start last) =
      (digits start, digits last) := by
  by_cases heq : start = last
  · rw [← heq, rangeText_self, splitOnce_none (notMem_digits (by decide) start), Option.getD_none]
  · rw [rangeText_of_ne heq, splitOnce_some (notMem_digits (by decide) start)]
    · rw [Option.getD_some]
    · simp

theorem parsePart_text (range : CpuRange) : parsePart range.text = .ok range.numbers := by
  have hordered : ¬range.last < range.first := UInt32.not_lt.mpr range.ordered
  unfold parsePart CpuRange.text
  rw [splitOnce_rangeText]
  simp only [parseU32_trim_digits, okOr]
  simp [hordered, refuseIf]
  rfl

theorem comma_notMem_text (range : CpuRange) : ',' ∉ range.text.toList := by
  unfold CpuRange.text
  by_cases heq : range.first = range.last
  · rw [heq, rangeText_self]
    exact notMem_digits (by decide) _
  · rw [rangeText_of_ne heq]
    simp [notMem_digits]

theorem cpuParts_listText (ranges : List CpuRange) :
    cpuParts (CpuRange.listText ranges) = ranges.map CpuRange.text := by
  rcases eq_or_ne ranges [] with rfl | hne
  · rfl
  · have hmarks : ∀ part ∈ ranges.map (String.toList ∘ CpuRange.text), ',' ∉ part := by
      simp only [List.mem_map]
      rintro part ⟨range, -, rfl⟩
      exact comma_notMem_text range
    have hlist : (CpuRange.listText ranges).toList =
        [','].intercalate (ranges.map (String.toList ∘ CpuRange.text)) := by
      rw [CpuRange.listText, String.toList_intercalate, List.map_map]
      rfl
    rw [cpuParts, hlist, List.splitOn_intercalate ',' hmarks (by simpa using hne), List.map_map]
    have hparts : String.ofList ∘ String.toList ∘ CpuRange.text = CpuRange.text := by
      funext range
      exact String.ofList_toList
    rw [hparts, List.filter_eq_self]
    simp only [List.mem_map, decide_eq_true_eq]
    rintro part ⟨range, -, rfl⟩
    exact rangeText_ne_empty _ _

theorem foldlM_parsePart {parts : List String} {cpus numbers : List UInt32} :
    parts.foldlM (fun cpus part => do return cpus ++ (← parsePart part)) cpus = .ok numbers ↔
      ∃ pieces, List.Forall₂ (fun part piece => parsePart part = .ok piece) parts pieces ∧
        numbers = cpus ++ pieces.flatten := by
  induction parts generalizing cpus with
  | nil =>
    simp only [List.foldlM_nil, List.forall₂_nil_left_iff, exists_eq_left, List.flatten_nil, List.append_nil]
    exact ⟨fun h => (Except.ok.inj h).symm, fun h => h ▸ rfl⟩
  | cons part parts ih =>
    rw [List.foldlM_cons, check_bind_ok]
    constructor
    · rintro ⟨read, hread, hrest⟩
      obtain ⟨piece, hpiece, hread⟩ := check_bind_ok.mp hread
      cases hread
      obtain ⟨pieces, hpieces, rfl⟩ := ih.mp hrest
      exact ⟨piece :: pieces, .cons hpiece hpieces, by simp⟩
    · rintro ⟨_, hpieces, rfl⟩
      obtain ⟨piece, pieces, hpiece, hrest, rfl⟩ := List.forall₂_cons_left_iff.mp hpieces
      refine ⟨cpus ++ piece, check_bind_ok.mpr ⟨piece, hpiece, rfl⟩, ih.mpr ⟨pieces, hrest, ?_⟩⟩
      rw [List.flatten_cons, List.append_assoc]

theorem exists_range_of_parsePart {numbers : List UInt32} (h : parsePart part = .ok numbers) :
    ∃ range : CpuRange, range.numbers = numbers := by
  unfold parsePart at h
  obtain ⟨start, -, h⟩ := check_bind_ok.mp h
  obtain ⟨last, -, h⟩ := check_bind_ok.mp h
  obtain ⟨_, hordered, hnumbers⟩ := check_bind_ok.mp h
  cases hnumbers
  exact ⟨⟨start, last, UInt32.not_lt.mp (refuseIf_ok.mp hordered)⟩, rfl⟩

theorem ranges_of_parseCpuList {list : String} {numbers : List UInt32} (h : parseCpuList list = .ok numbers) :
    ∃ ranges : List CpuRange, ranges.flatMap CpuRange.numbers = numbers ∧
      ranges.length = (cpuParts list).length := by
  obtain ⟨pieces, hpieces, rfl⟩ := foldlM_parsePart.mp h
  generalize cpuParts list = parts at hpieces
  clear h
  induction hpieces with
  | nil => exact ⟨[], rfl, rfl⟩
  | cons hpiece _ ih =>
    obtain ⟨range, rfl⟩ := exists_range_of_parsePart hpiece
    obtain ⟨ranges, hnumbers, hlength⟩ := ih
    refine ⟨range :: ranges, ?_, by rw [List.length_cons, List.length_cons, hlength]⟩
    rw [List.flatMap_cons, hnumbers]
    rfl

/-- A list of ranges is read back as their numbers. -/
theorem parseCpuList_listText (ranges : List CpuRange) :
    parseCpuList (CpuRange.listText ranges) = .ok (ranges.flatMap CpuRange.numbers) := by
  refine foldlM_parsePart.mpr ⟨ranges.map CpuRange.numbers, ?_, by simp [List.flatMap]⟩
  rw [cpuParts_listText, List.forall₂_map_left_iff, List.forall₂_map_right_iff, List.forall₂_same]
  exact fun range _ => parsePart_text range

end Reader

/-! There and back. -/

theorem exists_broken_of_render {list : CpuList} (hsmall : ∀ n ∈ list.numbers, n.toNat + 1 ≠ 2 ^ 32) :
    ∃ ranges, list.render = CpuRange.listText ranges ∧ ranges.flatMap CpuRange.numbers = list.numbers ∧
      CpuRange.Broken ranges := by
  obtain ⟨ranges, htext, hnumbers, hbroken⟩ := renderFrom_ranges "" hsmall
  exact ⟨ranges, by rw [CpuList.render, htext, foldl_pushRange_empty], hnumbers, hbroken⟩

/-- In ascending numbers the ranges of a list that is nowhere cut in two lie apart. -/
theorem CpuRange.Broken.apart {ranges : List CpuRange} (hbroken : CpuRange.Broken ranges)
    (hsorted : (ranges.flatMap CpuRange.numbers).Pairwise (· < ·)) :
    Ranges.Apart (ranges.map CpuRange.interval) := by
  refine Ranges.apart_of_sorted ?_ ((List.isChain_map _).mpr hbroken)
  rw [← CpuRange.flatMap_numbers_toNat, List.pairwise_map]
  exact hsorted.imp UInt32.lt_iff_toNat_lt.mp

theorem covered_intervals (ranges : List CpuRange) :
    Ranges.covered (ranges.map CpuRange.interval) =
      {n | n ∈ (ranges.flatMap CpuRange.numbers).map UInt32.toNat} := by
  rw [Ranges.covered_eq, CpuRange.flatMap_numbers_toNat]

/-- An ascending list below the largest number is written and read back as it was. It is
written in ranges of which no two meet, and no list that is read as these numbers has
fewer parts. -/
theorem CpuList.render_reads_back (l : List UInt32) (hsorted : l.Pairwise (· < ·))
    (hbelow : ∀ n ∈ l, n.toNat < 2 ^ 32 - 1) :
    ∃ ranges : List CpuRange,
      (CpuList.mk l).render = CpuRange.listText ranges ∧
      parseCpuList (CpuRange.listText ranges) = .ok l ∧
      (ranges.IsChain fun range next => range.last.toNat + 1 < next.first.toNat) ∧
      (∀ others : List CpuRange, others.flatMap CpuRange.numbers = l → ranges.length ≤ others.length) ∧
      ∀ list, parseCpuList list = .ok l → ranges.length ≤ (cpuParts list).length := by
  have hsmall : ∀ n ∈ l, n.toNat + 1 ≠ 2 ^ 32 := by
    intro n hn
    have := hbelow n hn
    omega
  obtain ⟨ranges, htext, hnumbers, hbroken⟩ := @exists_broken_of_render ⟨l⟩ hsmall
  have hread : parseCpuList (CpuRange.listText ranges) = .ok l := by
    rw [parseCpuList_listText, hnumbers]
  have hapart := hbroken.apart (hnumbers ▸ hsorted)
  have hfewest : ∀ others : List CpuRange, others.flatMap CpuRange.numbers = l →
      ranges.length ≤ others.length := by
    intro others hothers
    have hsame : Ranges.covered (others.map CpuRange.interval) =
        Ranges.covered (ranges.map CpuRange.interval) := by
      rw [covered_intervals, covered_intervals, hothers, hnumbers]
    simpa using hapart.length_le hsame
  refine ⟨ranges, htext, hread, ?_, hfewest, ?_⟩
  · exact (List.isChain_map _).mp hapart.isChain
  · intro list hlist
    obtain ⟨others, hothers, hlength⟩ := ranges_of_parseCpuList hlist
    exact hlength ▸ hfewest others hothers

/-- Runs of one, two and four numbers, up to the last number before the largest. -/
theorem CpuList.render_reads_back_runs :
    ∃ ranges : List CpuRange,
      (CpuList.mk [0, 1, 2, 3, 8, 10, 11, 4294967294]).render = CpuRange.listText ranges ∧
      parseCpuList (CpuRange.listText ranges) = .ok [0, 1, 2, 3, 8, 10, 11, 4294967294] ∧
      (ranges.IsChain fun range next => range.last.toNat + 1 < next.first.toNat) ∧
      (∀ others : List CpuRange, others.flatMap CpuRange.numbers = [0, 1, 2, 3, 8, 10, 11, 4294967294] →
        ranges.length ≤ others.length) ∧
      ∀ list, parseCpuList list = .ok [0, 1, 2, 3, 8, 10, 11, 4294967294] →
        ranges.length ≤ (cpuParts list).length :=
  CpuList.render_reads_back _ (by simp) (by simp)

example : (CpuList.mk [0, 1, 2, 3, 8, 10, 11]).render = "0-3,8,10-11" := by decide +kernel
example : parseCpuList "0-3,8,10-11" = .ok [0, 1, 2, 3, 8, 10, 11] := by decide +kernel

end Archon.Node

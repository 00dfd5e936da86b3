import EntityQuery.Execution.Executor
import EntityQuery.Proofs.Criteria.Blank
import Mathlib.Data.List.Basic
import Mathlib.Tactic.Common

/-!
# Pages

A page is a window of the result. Where the offset of a window does not fit into a word, no result
is as long, so that the window is the same as if it did. The main statement is that the pages of a
result are the result, cut into windows of the size, and that the parameters of a relational query
stand for the same windows.
-/

namespace EntityQuery

/-! ### Words -/

namespace Word

/-- The word of a number, if the number fits. -/
def ofNat? (n : Nat) : Option UInt64 :=
  if n ≤ maxIndex then some (.ofNat n) else none

/-- The largest word. -/
def largest : UInt64 :=
  .ofNat maxIndex

/-- The sum of two words, if it fits. -/
def add? (a b : UInt64) : Option UInt64 :=
  ofNat? (a.toNat + b.toNat)

/-- The product of two words, if it fits. -/
def mul? (a b : UInt64) : Option UInt64 :=
  ofNat? (a.toNat * b.toNat)

/-- The quotient of two words, if the divisor is not zero. -/
def div? (a b : UInt64) : Option UInt64 :=
  if b = 0 then none else some (a / b)

/-- The remainder of two words, if the divisor is not zero. -/
def mod? (a b : UInt64) : Option UInt64 :=
  if b = 0 then none else some (a % b)

/-- How often a word has to be taken to reach another: the quotient, and one more if there is a
remainder. -/
def divCeil? (a b : UInt64) : Option UInt64 := do
  let quotient ← div? a b
  let remainder ← mod? a b
  if 0 < remainder then add? quotient 1 else return quotient

lemma toNat_largest : largest.toNat = maxIndex :=
  rfl

lemma toNat_le (a : UInt64) : a.toNat ≤ maxIndex :=
  Nat.le_of_lt_succ a.toNat_lt

lemma toNat_ofNat {n : Nat} (h : n ≤ maxIndex) : (UInt64.ofNat n).toNat = n :=
  UInt64.toNat_ofNat_of_lt' (Nat.lt_succ_of_le h)

lemma ofNat?_eq {n : Nat} (h : n ≤ maxIndex) : ofNat? n = some (.ofNat n) :=
  if_pos h

/-- What does not fit is replaced by the largest word. -/
lemma toNat_getD_ofNat? (n : Nat) : ((ofNat? n).getD largest).toNat = min n maxIndex := by
  unfold ofNat?
  split
  · rename_i h
    rw [Option.getD_some, toNat_ofNat h, Nat.min_eq_left h]
  · rename_i h
    rw [Option.getD_none, toNat_largest, Nat.min_eq_right (Nat.le_of_not_le h)]

end Word

namespace Page

variable {α : Type} {all : List α} {r : PageRequest} {number size : UInt64}

/-- The number of pages, computed with words. -/
def pages? (total size : UInt64) : Option UInt64 :=
  if size = 0 then some 0 else Word.divCeil? total size

/-- What a page computes with words: how many results come before it, how many pages there are, and
whether it is the last one. Products and sums that do not fit are replaced by the largest word. -/
def computed? (total : UInt64) (r : PageRequest) : Option (UInt64 × UInt64 × Bool) :=
  (pages? total r.size).map fun pages =>
    ((Word.mul? r.page r.size).getD Word.largest, pages,
      decide (pages ≤ (Word.add? r.page 1).getD Word.largest))

/-- The contents of all pages of a size. -/
def contents (all : List α) (size : UInt64) : List (List α) :=
  (List.range (slice all ⟨0, size⟩).totalPages).map fun n => (slice all ⟨.ofNat n, size⟩).content

/-! ### The number of pages -/

lemma size_pos (h : size ≠ 0) : 0 < size.toNat :=
  Nat.pos_of_ne_zero fun hzero => h (UInt64.toNat_inj.mp hzero)

/-- A number of pages is enough if it has room for the whole result. -/
lemma totalPages_le_iff {p : Page α} (h : p.size ≠ 0) {n : Nat} :
    p.totalPages ≤ n ↔ p.total ≤ n * p.size.toNat := by
  have hpos := size_pos h
  rw [totalPages, if_neg (Nat.ne_of_gt hpos), Nat.div_le_iff_le_mul_add_pred hpos, Nat.mul_comm]
  omega

lemma totalPages_le_total (p : Page α) : p.totalPages ≤ p.total := by
  by_cases h : p.size = 0
  · simp [totalPages, h]
  · exact (totalPages_le_iff h).mpr (Nat.le_mul_of_pos_right _ (size_pos h))

/-- The pages that are full, and one more if results remain. -/
lemma totalPages_eq {p : Page α} (h : p.size ≠ 0) : p.totalPages =
    p.total / p.size.toNat + if 0 < p.total % p.size.toNat then 1 else 0 := by
  have hpos := size_pos h
  have hdivision := Nat.div_add_mod' p.total p.size.toNat
  have hrest := Nat.mod_lt p.total hpos
  rw [totalPages, if_neg (Nat.ne_of_gt hpos)]
  refine Nat.div_eq_of_lt_le ?_ ?_ <;> split <;> simp only [Nat.add_mul] <;> omega

/-- Dividing upwards neither divides by zero nor overflows. -/
lemma divCeil?_eq {p : Page α} (h : p.size ≠ 0) (fits : p.total ≤ maxIndex) :
    Word.divCeil? (.ofNat p.total) p.size = some (.ofNat p.totalPages) := by
  have hpages := totalPages_eq h
  have hle := Nat.le_trans p.totalPages_le_total fits
  have hquotient : (UInt64.ofNat p.total / p.size).toNat = p.total / p.size.toNat := by
    rw [UInt64.toNat_div, Word.toNat_ofNat fits]
  have hrest : 0 < UInt64.ofNat p.total % p.size ↔ 0 < p.total % p.size.toNat := by
    rw [UInt64.lt_iff_toNat_lt, UInt64.toNat_mod, Word.toNat_ofNat fits]
    rfl
  simp only [Word.divCeil?, Word.div?, Word.mod?, if_neg h, Option.bind_eq_bind, Option.bind_some,
    hrest]
  split
  · rename_i hsplit
    rw [if_pos hsplit] at hpages
    rw [Word.add?, hquotient, show (1 : UInt64).toNat = 1 from rfl, ← hpages, Word.ofNat?_eq hle]
  · rename_i hsplit
    rw [if_neg hsplit, Nat.add_zero] at hpages
    rw [hpages, ← hquotient, UInt64.ofNat_toNat]
    rfl

lemma pages?_eq {p : Page α} (fits : p.total ≤ maxIndex) :
    pages? (.ofNat p.total) p.size = some (.ofNat p.totalPages) := by
  unfold pages?
  split
  · rename_i h
    simp [totalPages, h]
  · rename_i h
    exact divCeil?_eq h fits

/-- No computation of a page overflows or divides by zero; what it comes to are the offset, the
number of pages and whether none comes after. -/
lemma computed?_eq (fits : all.length ≤ maxIndex) (r : PageRequest) :
    computed? (.ofNat all.length) r = some (.ofNat r.offset,
      .ofNat (slice all r).totalPages, (slice all r).isLast) := by
  have hpages : pages? (.ofNat all.length) r.size = some (.ofNat (slice all r).totalPages) :=
    pages?_eq (p := slice all r) fits
  have hle := Nat.le_trans (slice all r).totalPages_le_total fits
  have hoffset : (Word.mul? r.page r.size).getD Word.largest = .ofNat r.offset := by
    rw [← UInt64.toNat_inj, Word.mul?, Word.toNat_getD_ofNat?]
    exact (Word.toNat_ofNat (Nat.min_le_right _ _)).symm
  have hlast : decide (.ofNat (slice all r).totalPages ≤ (Word.add? r.page 1).getD Word.largest) =
      (slice all r).isLast := by
    simp only [isLast, UInt64.le_iff_toNat_le, Word.add?, Word.toNat_getD_ofNat?,
      Word.toNat_ofNat hle]
    rfl
  rw [computed?, hpages, Option.map_some, hoffset, hlast]

/-! ### Windows -/

/-- An offset that does not fit skips the whole result, as the one that it stands for does. -/
lemma content_slice (fits : all.length ≤ maxIndex) (r : PageRequest) :
    (slice all r).content = (all.drop (r.page.toNat * r.size.toNat)).take r.size.toNat := by
  have hdrop : all.drop r.offset = all.drop (r.page.toNat * r.size.toNat) := by
    by_cases h : r.page.toNat * r.size.toNat ≤ maxIndex
    · rw [PageRequest.offset, Nat.min_eq_left h]
    · have h := Nat.le_of_not_le h
      rw [PageRequest.offset, Nat.min_eq_right h, List.drop_eq_nil_of_le fits,
        List.drop_eq_nil_of_le (Nat.le_trans fits h)]
  rw [slice, hdrop]

/-- The pages after the last one are empty, and no others. -/
lemma content_eq_nil_iff (fits : all.length ≤ maxIndex) (h : size ≠ 0) :
    (slice all ⟨number, size⟩).content = [] ↔
      (slice all ⟨number, size⟩).totalPages ≤ number.toNat := by
  have hpos := size_pos h
  rw [totalPages_le_iff (p := slice all ⟨number, size⟩) h, content_slice fits]
  simp only [List.take_eq_nil_iff, List.drop_eq_nil_iff, slice]
  omega

/-- The last page is the one after which all are empty. -/
lemma isLast_iff (fits : all.length ≤ maxIndex) (h : size ≠ 0) :
    (slice all ⟨number, size⟩).isLast = true ↔
      ∀ later, number < later → (slice all ⟨later, size⟩).content = [] := by
  rw [isLast, decide_eq_true_iff]
  change (slice all ⟨number, size⟩).totalPages ≤ min (number.toNat + 1) maxIndex ↔ _
  have hle := Nat.le_trans (slice all ⟨number, size⟩).totalPages_le_total fits
  constructor
  · intro hlast later hlater
    rw [content_eq_nil_iff fits h]
    have hlater := UInt64.lt_iff_toNat_lt.mp hlater
    exact Nat.le_trans hlast (Nat.le_trans (Nat.min_le_left _ _) hlater)
  · intro hempty
    by_cases hmax : number.toNat + 1 ≤ maxIndex
    · -- there is a next page, and it is empty
      have hnext := Word.toNat_ofNat hmax
      have hlater : number < .ofNat (number.toNat + 1) := by
        rw [UInt64.lt_iff_toNat_lt, hnext]
        exact Nat.lt_succ_self _
      have hnil := (content_eq_nil_iff fits h).mp (hempty _ hlater)
      rw [hnext] at hnil
      exact Nat.le_min.mpr ⟨hnil, hle⟩
    · exact Nat.le_min.mpr ⟨by omega, hle⟩

/-! ### All pages -/

/-- Windows of one size that follow each other are the beginning of a list. -/
lemma flatten_windows (all : List α) (size n : Nat) :
    ((List.range n).map fun i => (all.drop (i * size)).take size).flatten =
      all.take (n * size) := by
  induction n with
  | zero => simp
  | succ n ih =>
    rw [List.range_succ, List.map_append, List.flatten_append, ih, Nat.succ_mul, List.take_add]
    simp

lemma contents_eq (fits : all.length ≤ maxIndex) (size : UInt64) :
    contents all size = (List.range (slice all ⟨0, size⟩).totalPages).map fun n =>
      (all.drop (n * size.toNat)).take size.toNat := by
  refine List.map_congr_left fun n hn => ?_
  have hn := Nat.le_of_lt (List.mem_range.mp hn)
  have hle := Nat.le_trans (slice all ⟨0, size⟩).totalPages_le_total fits
  rw [content_slice fits, Word.toNat_ofNat (Nat.le_trans hn hle)]

lemma flatten_contents (fits : all.length ≤ maxIndex) (h : size ≠ 0) :
    (contents all size).flatten = all := by
  rw [contents_eq fits, flatten_windows]
  exact List.take_of_length_le ((totalPages_le_iff (p := slice all ⟨0, size⟩) h).mp (Nat.le_refl _))

/-- All pages but the last are full, and the last one is not empty. -/
lemma contents_cases (fits : all.length ≤ maxIndex) (h : size ≠ 0) :
    contents all size = [] ∨ ∃ front last, contents all size = front ++ [last] ∧
      (∀ content ∈ front, content.length = size.toNat) ∧ last ≠ [] := by
  have hpos := size_pos h
  have henough (n : Nat) := totalPages_le_iff (p := slice all ⟨0, size⟩) h (n := n)
  rw [contents_eq fits]
  cases hpages : (slice all ⟨0, size⟩).totalPages with
  | zero => exact .inl rfl
  | succ n =>
    refine .inr ⟨_, _, by rw [List.range_succ, List.map_append]; rfl, ?_, ?_⟩
    · intro content hcontent
      obtain ⟨i, hi, rfl⟩ := List.mem_map.mp hcontent
      have hi := List.mem_range.mp hi
      have hfull : ¬ all.length ≤ (i + 1) * size.toNat :=
        fun hle => by have := (henough (i + 1)).mpr hle; omega
      rw [Nat.add_mul] at hfull
      rw [List.length_take, List.length_drop]
      omega
    · have hrest : ¬ all.length ≤ n * size.toNat :=
        fun hle => by have := (henough n).mpr hle; omega
      simp only [ne_eq, List.take_eq_nil_iff, List.drop_eq_nil_iff]
      omega

end Page

/-! ### Relational queries -/

namespace Criteria

variable {α : Type} {all : List α} {c : Criteria}

/-- The most rows that a database counts. -/
def maxRows : Nat :=
  Nat.pow 2 63 - 1

/-- The rows that `LIMIT` and `OFFSET` leave of a result: a negative number of rows is no limit, and
a negative offset skips none. -/
def window? (limit offset : SqlValue) (all : List α) : Option (List α) :=
  match limit, offset with
  | .integer limit, .integer offset =>
    let rest := all.drop offset.toInt.toNat
    some (if limit.toInt < 0 then rest else rest.take limit.toInt.toNat)
  | _, _ => none

/-- A repository that has the rows of a query: it counts them, and of a page it has the window. -/
structure AnsweredBy (c : Criteria) (repository : CriteriaRepository α) (all : List α) : Prop where
  count : repository.count c = .ok all.length
  page (r : PageRequest) {content : List α}
    (h : window? (rowCount r.size.toNat) (rowCount r.offset) all = some content) :
    repository.findAll (c.withPage r) = .ok content

lemma exists_rowCount (n : Nat) :
    ∃ i : Int64, rowCount n = .integer i ∧ i.toInt = (min n maxRows : Nat) := by
  have hlt : min n maxRows < 2 ^ 63 := Nat.lt_of_le_of_lt (Nat.min_le_right _ _) (by decide)
  exact ⟨_, rfl, Int64.toInt_ofNat_of_lt hlt⟩

/-- Numbers of rows that do not fit are replaced by one that no result exceeds. -/
lemma window?_rowCount (fits : all.length ≤ maxRows) (size offset : Nat) :
    window? (rowCount size) (rowCount offset) all = some ((all.drop offset).take size) := by
  obtain ⟨i, hi, hsize⟩ := exists_rowCount size
  obtain ⟨j, hj, hoffset⟩ := exists_rowCount offset
  have hnegative : ¬ i.toInt < 0 := by omega
  have htake : i.toInt.toNat = min size maxRows := by omega
  have hdrop : j.toInt.toNat = min offset maxRows := by omega
  rw [hi, hj, window?]
  simp only [if_neg hnegative, htake, hdrop, Option.some.injEq]
  have hskipped : all.drop (min offset maxRows) = all.drop offset := by
    by_cases h : offset ≤ maxRows
    · rw [Nat.min_eq_left h]
    · have h := Nat.le_of_not_le h
      rw [Nat.min_eq_right h, List.drop_eq_nil_of_le fits,
        List.drop_eq_nil_of_le (Nat.le_trans fits h)]
  rw [hskipped, List.take_eq_take_iff, List.length_drop]
  omega

/-- The page is the last thing in the text of a query, and its parameters are the last ones. -/
lemma selectSql_withPage (c : Criteria) (r : PageRequest) :
    (c.withPage r).selectSql.text =
        ({ c with page := none } : Criteria).selectSql.text ++ " LIMIT ? OFFSET ?" ∧
      (c.withPage r).selectSql.params =
        ({ c with page := none } : Criteria).selectSql.params ++
          [rowCount r.size.toNat, rowCount r.offset] := by
  let front := .raw ("SELECT " ++ c.source.name.text ++ ".*") ++ c.bodySql ++
    .raw (" ORDER BY " ++ c.ordersSql ++ c.source.name.text ++ ".rowid")
  have hpaged : (c.withPage r).selectSql = front ++ pageSql r := rfl
  have hwhole : ({ c with page := none } : Criteria).selectSql = front ++ .raw "" := rfl
  rw [hpaged, hwhole]
  constructor
  · rw [Sql.text_append front, Sql.text_append front, String.append_assoc]
    rfl
  · change front.params ++ _ = front.params ++ [] ++ _
    rw [List.append_nil]
    rfl

/-- A page of a relational query is the page of its rows. -/
lemma findPage_answered (fits : all.length ≤ maxRows) {repository : CriteriaRepository α}
    (h : c.AnsweredBy repository all) {entity : String} {q : PreparedQuery}
    (hc : compile repository.mappings entity q = .ok c) (r : PageRequest) :
    (Executor.ofCriteria entity repository).findPage q r = .ok (.slice all r) := by
  have hpage := h.page r (window?_rowCount fits _ _)
  simp only [Executor.ofCriteria, hc, h.count, hpage, bind, Except.bind]
  rfl

end Criteria

/-- **Pages** of a result that words can count. For every size but zero, the contents of the pages
from the first to the last are the result, every page but the last is full and the last one is not
empty; a page is empty exactly if its number is not below the number of pages, and the last one
exactly if all pages after it are empty. Nothing that a page computes overflows or divides by zero,
for whatever size. The parameters that a relational query ends with stand for the window of the
page, if a database can count the rows, so that an executor of relational queries finds the page of
the rows of its query. -/
theorem pages_partition {α : Type} {all : List α} (fits : all.length ≤ maxIndex) :
    (∀ size : UInt64, size ≠ 0 →
      (Page.contents all size).flatten = all ∧
      (Page.contents all size = [] ∨ ∃ front last, Page.contents all size = front ++ [last] ∧
        (∀ content ∈ front, content.length = size.toNat) ∧ last ≠ []) ∧
      ∀ number : UInt64,
        ((Page.slice all ⟨number, size⟩).content = [] ↔
          (Page.slice all ⟨number, size⟩).totalPages ≤ number.toNat) ∧
        ((Page.slice all ⟨number, size⟩).isLast = true ↔
          ∀ later, number < later → (Page.slice all ⟨later, size⟩).content = [])) ∧
    (∀ r : PageRequest, ∃ offset pages,
      Page.computed? (.ofNat all.length) r = some (offset, pages, (Page.slice all r).isLast) ∧
      offset.toNat = r.offset ∧ pages.toNat = (Page.slice all r).totalPages) ∧
    (all.length ≤ Criteria.maxRows → ∀ (c : Criteria) (r : PageRequest),
      (∃ limit offset,
        (c.withPage r).selectSql.text =
          ({ c with page := none } : Criteria).selectSql.text ++ " LIMIT ? OFFSET ?" ∧
        (c.withPage r).selectSql.params =
          ({ c with page := none } : Criteria).selectSql.params ++ [limit, offset] ∧
        Criteria.window? limit offset all = some (Page.slice all r).content) ∧
      ∀ (repository : CriteriaRepository α) entity q,
        Criteria.compile repository.mappings entity q = .ok c → c.AnsweredBy repository all →
          (Executor.ofCriteria entity repository).findPage q r = .ok (.slice all r)) := by
  refine ⟨fun size h => ⟨Page.flatten_contents fits h, Page.contents_cases fits h, fun number =>
    ⟨Page.content_eq_nil_iff fits h, Page.isLast_iff fits h⟩⟩, fun r => ?_, fun hrows c r => ⟨?_, ?_⟩⟩
  · have hpages := Nat.le_trans (Page.slice all r).totalPages_le_total fits
    exact ⟨_, _, Page.computed?_eq fits r, Word.toNat_ofNat (Nat.min_le_right _ _),
      Word.toNat_ofNat hpages⟩
  · obtain ⟨htext, hparams⟩ := Criteria.selectSql_withPage c r
    exact ⟨_, _, htext, hparams, Criteria.window?_rowCount hrows _ _⟩
  · intro repository entity q hc h
    exact Criteria.findPage_answered hrows h hc r

namespace Roll

/-- Seven people. -/
def people : List Nat :=
  [1, 2, 3, 4, 5, 6, 7]

/-- Where people are stored. -/
def mappings : Mappings :=
  .add .empty (.named "Person" "person" "id")

/-- The relational query for all people. -/
def everyone : Criteria :=
  ⟨⟨"person", ⟨'t', 0⟩, []⟩, none, [], none⟩

/-- A database of the people. -/
def repository : CriteriaRepository Nat where
  mappings := mappings
  count _ := .ok people.length
  findAll c :=
    match c.page with
    | none => .ok people
    | some r =>
      .ok ((Criteria.window? (Criteria.rowCount r.size.toNat) (Criteria.rowCount r.offset)
        people).getD [])

lemma everyone_answered : everyone.AnsweredBy repository people where
  count := rfl
  page r content h := by simp [repository, Criteria.withPage, h]

end Roll

open Roll in
/-- Pages of three people; the second one is asked for. -/
theorem pages_partition_people :
    people.length ≤ maxIndex ∧ (3 : UInt64) ≠ 0 ∧ people.length ≤ Criteria.maxRows ∧
      Criteria.compile repository.mappings "Person" ⟨none, []⟩ = .ok everyone ∧
      everyone.AnsweredBy repository people ∧
      Page.contents people 3 = [[1, 2, 3], [4, 5, 6], [7]] ∧
      (Page.contents people 3).flatten = people ∧
      (∀ later, 2 < later → (Page.slice people ⟨later, 3⟩).content = []) ∧
      (Executor.ofCriteria "Person" repository).findPage ⟨none, []⟩ ⟨1, 3⟩ =
        .ok ⟨[4, 5, 6], 1, 3, 7⟩ := by
  have hcompile : Criteria.compile repository.mappings "Person" ⟨none, []⟩ = .ok everyone := by
    rfl
  have fits : people.length ≤ maxIndex := by decide
  obtain ⟨hpages, -, hrows⟩ := pages_partition fits
  obtain ⟨hflatten, -, hnumbers⟩ := hpages 3 (by decide)
  have hfound := (hrows (by decide) everyone ⟨1, 3⟩).2 repository "Person" ⟨none, []⟩ hcompile
    everyone_answered
  exact ⟨fits, by decide, by decide, hcompile, everyone_answered, rfl, hflatten,
    (hnumbers 2).2.mp (by decide), hfound⟩

end EntityQuery

import Asciidoc.Proofs.Text.Pieces
import Asciidoc.Text.Utf8

/-!
# Offsets across line ends

A file that is read as lines has a line feed for each of its line ends, so that an offset in what
is read is not the offset in the file. `Utf8.fileOffset` is the offset in the file: what is read
of the file before it and behind it is what was read before and behind
(`Utf8.lineFeeds_take_fileOffset`, `Utf8.lineFeeds_drop_fileOffset`), and what was read between two
offsets is what is read of the file between theirs (`Utf8.slice_lineFeeds`). The two offsets are
the same exactly if no carriage return with a line feed behind it begins before
(`Utf8.fileOffset_eq_self_iff`); one that stands alone moves nothing.
-/

namespace Asciidoc.Text.Utf8

variable {c : Char} {t : Text} {n start stop : Nat}

/-- A text is taken apart into carriage returns with a line feed behind them, and characters that do
not begin such a line end. -/
@[elab_as_elim]
theorem lineEnds_induction {motive : Text → Prop} (nil : motive [])
    (returned : ∀ t, motive t → motive ('\r' :: '\n' :: t))
    (cons : ∀ c t, (c = '\r' → t.head? ≠ some '\n') → motive t → motive (c :: t)) :
    ∀ t, motive t
  | [] => nil
  | [c] => cons c [] nofun nil
  | c :: next :: rest =>
    if h : c = '\r' ∧ next = '\n' then
      h.1 ▸ h.2 ▸ returned rest (lineEnds_induction nil returned cons rest)
    else
      cons c (next :: rest) (fun hc hnext => h ⟨hc, Option.some.inj hnext⟩)
        (lineEnds_induction nil returned cons (next :: rest))

/-- What does not begin a line end does not begin one in a start of the text. -/
theorem head?_take_ne (h : c = '\r' → t.head? ≠ some '\n') :
    c = '\r' → (t.take n).head? ≠ some '\n' := by
  intro hc hhead
  rw [List.head?_take] at hhead
  split at hhead
  · cases hhead
  · exact h hc hhead

/-! ## Line feeds -/

/-- A carriage return that stands alone counts as a line feed. -/
def lineFeed (c : Char) : Char := if c = '\r' then '\n' else c

theorem lineFeeds_returned (t : Text) : lineFeeds ('\r' :: '\n' :: t) = '\n' :: lineFeeds t := by
  rw [lineFeeds, if_pos rfl]

theorem lineFeeds_cons (h : c = '\r' → t.head? ≠ some '\n') :
    lineFeeds (c :: t) = lineFeed c :: lineFeeds t := by
  rw [lineFeed]
  split_ifs with hc
  · subst hc
    cases t with
    | nil => rfl
    | cons next rest =>
      have hnext : next ≠ '\n' := fun hnext => h rfl (by rw [hnext, List.head?_cons])
      rw [lineFeeds, if_neg hnext]
  · rw [lineFeeds.eq_def]
    split <;> simp_all

/-- No carriage return is left. -/
theorem return_notMem_lineFeeds (t : Text) : '\r' ∉ lineFeeds t := by
  induction t using lineEnds_induction with
  | nil => exact nofun
  | returned t ih => rw [lineFeeds_returned, List.mem_cons]; simp [ih]
  | cons c t h ih =>
    rw [lineFeeds_cons h, List.mem_cons, not_or, lineFeed]
    refine ⟨?_, ih⟩
    split_ifs with hc
    · decide
    · exact Ne.symm hc

/-! ## Offsets -/

/-- The offset in a file of an offset in what is read of it as lines. -/
def fileOffset : Text → Nat → Nat
  | _, 0 => 0
  | [], n + 1 => n + 1
  | '\r' :: '\n' :: rest, n + 1 => fileOffset rest n + 2
  | _ :: rest, n + 1 => fileOffset rest n + 1

@[simp] theorem fileOffset_zero (t : Text) : fileOffset t 0 = 0 := by
  rw [fileOffset.eq_def]

@[simp] theorem fileOffset_nil (n : Nat) : fileOffset [] n = n := by
  cases n <;> rfl

theorem fileOffset_returned (t : Text) (n : Nat) :
    fileOffset ('\r' :: '\n' :: t) (n + 1) = fileOffset t n + 2 := rfl

theorem fileOffset_cons (h : c = '\r' → t.head? ≠ some '\n') (n : Nat) :
    fileOffset (c :: t) (n + 1) = fileOffset t n + 1 := by
  rw [fileOffset.eq_def]
  split <;> simp_all

/-- What is read of the file before an offset is what was read before. -/
theorem lineFeeds_take_fileOffset (t : Text) (n : Nat) :
    lineFeeds (t.take (fileOffset t n)) = (lineFeeds t).take n := by
  induction t using lineEnds_induction generalizing n with
  | nil => simp [lineFeeds]
  | returned t ih =>
    cases n with
    | zero => rw [fileOffset_zero, List.take_zero, List.take_zero, lineFeeds]
    | succ n =>
      rw [fileOffset_returned, List.take_succ_cons, List.take_succ_cons, lineFeeds_returned,
        lineFeeds_returned, List.take_succ_cons, ih]
  | cons c t h ih =>
    cases n with
    | zero => rw [fileOffset_zero, List.take_zero, List.take_zero, lineFeeds]
    | succ n =>
      rw [fileOffset_cons h, List.take_succ_cons, lineFeeds_cons (head?_take_ne h),
        lineFeeds_cons h, List.take_succ_cons, ih]

/-- What is read of the file behind an offset is what was read behind. -/
theorem lineFeeds_drop_fileOffset (t : Text) (n : Nat) :
    lineFeeds (t.drop (fileOffset t n)) = (lineFeeds t).drop n := by
  induction t using lineEnds_induction generalizing n with
  | nil => simp [lineFeeds]
  | returned t ih =>
    cases n with
    | zero => rw [fileOffset_zero, List.drop_zero, List.drop_zero]
    | succ n =>
      rw [fileOffset_returned, List.drop_succ_cons, List.drop_succ_cons, lineFeeds_returned,
        List.drop_succ_cons, ih]
  | cons c t h ih =>
    cases n with
    | zero => rw [fileOffset_zero, List.drop_zero, List.drop_zero]
    | succ n =>
      rw [fileOffset_cons h, List.drop_succ_cons, lineFeeds_cons h, List.drop_succ_cons, ih]

/-- No offset is earlier in the file. -/
theorem le_fileOffset (t : Text) (n : Nat) : n ≤ fileOffset t n := by
  induction t using lineEnds_induction generalizing n with
  | nil => simp
  | returned t ih =>
    cases n with
    | zero => exact Nat.zero_le _
    | succ n =>
      have := ih n
      rw [fileOffset_returned]
      omega
  | cons c t h ih =>
    cases n with
    | zero => exact Nat.zero_le _
    | succ n =>
      have := ih n
      rw [fileOffset_cons h]
      omega

/-- Offsets are at least as far apart in the file. -/
theorem fileOffset_add_le (t : Text) (n k : Nat) : fileOffset t n + k ≤ fileOffset t (n + k) := by
  induction t using lineEnds_induction generalizing n with
  | nil => simp
  | returned t ih =>
    cases n with
    | zero => simpa using le_fileOffset ('\r' :: '\n' :: t) k
    | succ n =>
      have := ih n
      rw [Nat.add_right_comm, fileOffset_returned, fileOffset_returned]
      omega
  | cons c t h ih =>
    cases n with
    | zero => simpa using le_fileOffset (c :: t) k
    | succ n =>
      have := ih n
      rw [Nat.add_right_comm, fileOffset_cons h, fileOffset_cons h]
      omega

theorem fileOffset_mono (t : Text) (h : start ≤ stop) : fileOffset t start ≤ fileOffset t stop := by
  obtain ⟨k, rfl⟩ := Nat.exists_eq_add_of_le h
  exact Nat.le_trans (Nat.le_add_right _ _) (fileOffset_add_le t start k)

/-- Offsets before the end of a start of the file are the same in this start. -/
theorem fileOffset_take (t : Text) (h : start ≤ stop) :
    fileOffset (t.take (fileOffset t stop)) start = fileOffset t start := by
  induction t using lineEnds_induction generalizing start stop with
  | nil => rw [List.take_nil]
  | returned t ih =>
    rcases start with _ | start
    · rw [fileOffset_zero, fileOffset_zero]
    · obtain ⟨stop, rfl⟩ := Nat.exists_eq_add_one_of_ne_zero (Nat.ne_zero_of_lt h)
      rw [fileOffset_returned, fileOffset_returned, List.take_succ_cons, List.take_succ_cons,
        fileOffset_returned, ih (Nat.le_of_succ_le_succ h)]
  | cons c t hc ih =>
    rcases start with _ | start
    · rw [fileOffset_zero, fileOffset_zero]
    · obtain ⟨stop, rfl⟩ := Nat.exists_eq_add_one_of_ne_zero (Nat.ne_zero_of_lt h)
      rw [fileOffset_cons hc, fileOffset_cons hc, List.take_succ_cons,
        fileOffset_cons (head?_take_ne hc), ih (Nat.le_of_succ_le_succ h)]

/-- What was read between two offsets is what is read of the file between theirs. -/
theorem slice_lineFeeds (t : Text) (start stop : Nat) :
    slice (lineFeeds t) start stop
      = lineFeeds (slice t (fileOffset t start) (fileOffset t stop)) := by
  rcases Nat.le_total start stop with h | h
  · rw [slice_natCast, slice_natCast, ← lineFeeds_take_fileOffset, ← lineFeeds_drop_fileOffset,
      fileOffset_take t h]
  · rw [slice_natCast_of_le _ h, slice_natCast_of_le _ (fileOffset_mono t h), lineFeeds]

/-! ## Offsets that stay -/

/-- No carriage return with a line feed behind it begins in a file before an offset. -/
def KeepsOffset (t : Text) (n : Nat) : Prop := ¬['\r', '\n'] <:+: t.take (n + 1)

theorem fileOffset_eq_self_iff (t : Text) (n : Nat) : fileOffset t n = n ↔ KeepsOffset t n := by
  rw [KeepsOffset]
  induction t using lineEnds_induction generalizing n with
  | nil => simp
  | returned t ih =>
    rcases n with _ | n
    · refine iff_of_true (fileOffset_zero _) fun h => ?_
      simpa using h.length_le
    · have := le_fileOffset t n
      rw [fileOffset_returned]
      exact iff_of_false (by omega) (not_not_intro ⟨[], t.take n, rfl⟩)
  | cons c t h ih =>
    rcases n with _ | n
    · refine iff_of_true (fileOffset_zero _) fun h => ?_
      simpa using h.length_le
    · have hprefix : ¬['\r', '\n'] <+: c :: t.take (n + 1) := by
        rw [List.cons_prefix_cons]
        rintro ⟨rfl, rest, hrest⟩
        exact head?_take_ne h rfl (congrArg List.head? hrest).symm
      rw [fileOffset_cons h, List.take_succ_cons, List.infix_cons_iff, or_iff_right hprefix, ← ih,
        Nat.add_right_cancel_iff]

theorem fileOffset_eq_self_of_le (h : start ≤ stop) (hstop : fileOffset t stop = stop) :
    fileOffset t start = start := by
  obtain ⟨k, rfl⟩ := Nat.exists_eq_add_of_le h
  have hadd := fileOffset_add_le t start k
  have hle := le_fileOffset t start
  omega

/-- Two offsets stay if the later one does. -/
theorem fileOffset_eq_self_both_iff (t : Text) (start stop : Nat) :
    (fileOffset t start = start ∧ fileOffset t stop = stop) ↔ KeepsOffset t (max start stop) := by
  rw [← fileOffset_eq_self_iff]
  refine ⟨fun h => ?_, fun h => ⟨fileOffset_eq_self_of_le (Nat.le_max_left _ _) h,
    fileOffset_eq_self_of_le (Nat.le_max_right _ _) h⟩⟩
  rcases Nat.le_total start stop with hle | hle
  · rw [Nat.max_eq_right hle, h.2]
  · rw [Nat.max_eq_left hle, h.1]

/-- No carriage return stands in what was read, wherever that stands in the file. -/
theorem return_notMem_slice_lineFeeds (t : Text) (start stop : Nat) :
    '\r' ∉ slice (lineFeeds t) start stop := by
  rw [slice_lineFeeds]
  exact return_notMem_lineFeeds _

/-- Between offsets that stay, the file has what was read if it has no carriage return there. -/
theorem slice_lineFeeds_eq_slice (hkeeps : KeepsOffset t (max start stop))
    (hreturn : '\r' ∉ slice t start stop) :
    slice (lineFeeds t) start stop = slice t start stop := by
  obtain ⟨hstart, hstop⟩ := (fileOffset_eq_self_both_iff t start stop).mpr hkeeps
  rw [slice_lineFeeds, hstart, hstop, lineFeeds_eq_self hreturn]

end Asciidoc.Text.Utf8

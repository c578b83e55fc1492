import Asciidoc.Proofs.Text.Pieces
import Mathlib.Data.List.Forall2

/-!
# Carriage returns before line feeds

A text written with a carriage return before every line feed has the same lines with a return at
the end of each but the last (`lines_withReturns`). A text without carriage returns is found in
such a line where it is found in the line without the return, so long as it is not the empty text
that is looked for behind the line (`find?_concat_return`).
-/

namespace Asciidoc.Text

/-- The text with a carriage return before every line feed. -/
def withReturns (t : Text) : Text := t.flatMap fun c => if c = '\n' then ['\r', '\n'] else [c]

/-- Lines with a carriage return at the end of each but the last. -/
def returned : List Text → List Text
  | line :: next :: rest => (line ++ ['\r']) :: returned (next :: rest)
  | lines => lines

variable {t piece line : Text}

/-! ## Lines -/

theorem withReturns_append (t u : Text) : withReturns (t ++ u) = withReturns t ++ withReturns u :=
  List.flatMap_append

theorem withReturns_newline (t : Text) : withReturns ('\n' :: t) = '\r' :: '\n' :: withReturns t :=
  rfl

theorem withReturns_of_not_mem (h : '\n' ∉ t) : withReturns t = t := by
  induction t with
  | nil => rfl
  | cons c rest ih =>
    obtain ⟨hc, hrest⟩ : '\n' ≠ c ∧ '\n' ∉ rest := by simpa using h
    rw [withReturns, List.flatMap_cons, if_neg (Ne.symm hc), ← withReturns, ih hrest]
    rfl

theorem length_withReturns (t : Text) : (withReturns t).length = t.length + t.count '\n' := by
  induction t with
  | nil => rfl
  | cons c rest ih =>
    rw [withReturns, List.flatMap_cons, List.length_append, ← withReturns, ih, List.count_cons]
    by_cases hc : c = '\n' <;> simp [hc] <;> omega

theorem length_returned (lines : List Text) : (returned lines).length = lines.length := by
  fun_induction returned lines with
  | case1 line next rest ih => rw [List.length_cons, List.length_cons, ih]
  | case2 lines => rfl

/-- Each line is the same or has a carriage return behind it. -/
theorem forall₂_returned (lines : List Text) :
    List.Forall₂ (fun line line' => line' = line ∨ line' = line ++ ['\r']) lines
      (returned lines) := by
  fun_induction returned lines with
  | case1 line next rest ih => exact .cons (.inr rfl) ih
  | case2 lines => exact List.forall₂_same.mpr fun line _ => .inl rfl

theorem not_mem_of_mem_returned {lines : List Text} (h : ∀ line ∈ lines, '\n' ∉ line) :
    ∀ line ∈ returned lines, '\n' ∉ line := by
  induction lines using returned.induct with
  | case1 line next rest ih =>
    obtain ⟨hline, hrest⟩ := List.forall_mem_cons.mp h
    exact List.forall_mem_cons.mpr ⟨by simpa using hline, ih hrest⟩
  | case2 lines hshort =>
    rw [returned]
    · exact h
    · exact hshort

theorem withReturns_unlines {lines : List Text} (h : ∀ line ∈ lines, '\n' ∉ line) :
    withReturns (unlines lines) = unlines (returned lines) := by
  induction lines using returned.induct with
  | case1 line next rest ih =>
    obtain ⟨hline, hrest⟩ := List.forall_mem_cons.mp h
    obtain ⟨first, others, hreturned⟩ :=
      List.exists_cons_of_length_eq_add_one (length_returned (next :: rest))
    rw [unlines_cons_cons, withReturns_append, withReturns_of_not_mem hline, withReturns_newline,
      ih hrest, returned, hreturned, unlines_cons_cons, List.append_assoc]
    rfl
  | case2 lines hshort =>
    rcases lines with _ | ⟨line, _ | ⟨next, rest⟩⟩
    · rfl
    · rw [returned, unlines_singleton, withReturns_of_not_mem (h line List.mem_cons_self)]
      exact nofun
    · exact absurd rfl (hshort line next rest)

theorem lines_withReturns (t : Text) : (withReturns t).lines = returned t.lines := by
  have hlines : ∀ line ∈ t.lines, '\n' ∉ line := not_mem_of_mem_split '\n' t
  have hne : returned t.lines ≠ [] := by
    rw [← List.length_pos_iff, length_returned, List.length_pos_iff]
    exact split_ne_nil '\n' t
  have hwhole : unlines t.lines = t := join_split '\n' t
  calc (withReturns t).lines = (withReturns (unlines t.lines)).lines := by rw [hwhole]
    _ = (unlines (returned t.lines)).lines := by rw [withReturns_unlines hlines]
    _ = returned t.lines := lines_unlines hne (not_mem_of_mem_returned hlines)

/-! ## Search -/

theorem isPrefixOf_concat_return (h : '\r' ∉ piece) (line : Text) :
    piece.isPrefixOf (line ++ ['\r']) = piece.isPrefixOf line := by
  rw [Bool.eq_iff_iff, List.isPrefixOf_iff_prefix, List.isPrefixOf_iff_prefix,
    List.prefix_concat_iff]
  refine ⟨fun hbegins => hbegins.resolve_left fun heq => h ?_, .inr⟩
  exact heq ▸ List.mem_append_right line (List.mem_singleton_self _)

theorem occurrence?_concat_return (h : '\r' ∉ piece) :
    occurrence? piece (line ++ ['\r']) = occurrence? piece line := by
  induction line with
  | nil =>
    have hreturn : piece.isPrefixOf ['\r'] = piece.isPrefixOf [] :=
      isPrefixOf_concat_return h []
    show (if piece.isPrefixOf ['\r'] then some 0 else (occurrence? piece []).map (· + 1)) = _
    rw [hreturn]
    cases piece <;> rfl
  | cons c rest ih =>
    rw [List.cons_append, occurrence?, ← List.cons_append, isPrefixOf_concat_return h, ih,
      ← occurrence?]

/-- Behind a line nothing is found, the return aside, which is not looked for. -/
theorem find?_concat_return (h : '\r' ∉ piece) {start : Int} (hstart : 0 ≤ start)
    (hempty : piece = [] → start = 0) :
    find? piece (line ++ ['\r']) start = find? piece line start := by
  obtain ⟨first, rfl⟩ := Int.eq_ofNat_of_zero_le hstart
  have hcolumn (length : Nat) : column length (first : Int) = first := by
    rw [column, if_neg (by omega), Int.toNat_natCast]
  rw [find?, find?, hcolumn, hcolumn, List.length_append, List.length_singleton]
  by_cases hbehind : line.length < first
  · rw [if_pos hbehind]
    by_cases hpast : line.length + 1 < first
    · exact if_pos hpast
    · -- Only the empty text stands at the end, and it is looked for from the start.
      rw [if_neg hpast, List.drop_of_length_le]
      · cases piece with
        | nil =>
          have := hempty rfl
          omega
        | cons c rest => rfl
      · rw [List.length_append, List.length_singleton]
        omega
  · rw [if_neg hbehind, if_neg (by omega), List.drop_append_of_le_length (by omega),
      occurrence?_concat_return h]

/-! ## Pieces -/

/-- The piece between the ends of two starts of the text, returns counted. -/
theorem slice_withReturns (t : Text) (start stop : Nat) :
    slice (withReturns t) (withReturns (t.take start)).length (withReturns (t.take stop)).length
      = withReturns (slice t start stop) := by
  have hcut (u : Text) (offset : Nat) :
      withReturns u = withReturns (u.take offset) ++ withReturns (u.drop offset) := by
    rw [← withReturns_append, List.take_append_drop]
  have htake : (withReturns t).take (withReturns (t.take stop)).length
      = withReturns (t.take stop) := by
    rw [hcut t stop, List.take_left]
  rw [slice_natCast, slice_natCast, htake]
  rcases Nat.le_total start stop with h | h
  · rw [hcut (t.take stop) start, List.take_take, Nat.min_eq_left h, List.drop_left]
  · have hlonger := congrArg List.length (hcut (t.take start) stop)
    rw [List.take_take, Nat.min_eq_left h, List.length_append] at hlonger
    have hshort : (t.take stop).length ≤ start := Nat.le_trans (List.length_take_le _ _) h
    rw [List.drop_of_length_le hshort, List.drop_of_length_le (by omega)]
    rfl

end Asciidoc.Text

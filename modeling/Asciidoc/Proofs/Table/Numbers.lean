import Asciidoc.Proofs.Table.Pieces

/-!
# The numbers of the lines of cells

A cell starts on the line of its bar, and the lines gathered for it are numbered on from there; a
later cell starts on no earlier line than any of these. A line is added to the last cell only, so
the lines of a cell are all before those of the next once that has started.
-/

namespace Asciidoc.Table

variable {P Q : Int → Prop} {cells : List PendingCell} {p : PendingCell} {number : Int}

/-- A cell and its lines have numbers of some kind, and those of the lines go forward from that of
the cell. -/
structure PendingCell.Numbered (P : Int → Prop) (p : PendingCell) : Prop where
  line : P p.line
  lines : ∀ entry ∈ p.lines, P entry.1 ∧ p.line ≤ entry.1
  growing : p.lines.Pairwise fun entry other => entry.1 < other.1

/-- What holds of the lines of a cell holds of them without the empty ones at its ends. -/
theorem PendingCell.Numbered.content (h : p.Numbered P) :
    (∀ entry ∈ p.content, P entry.1 ∧ p.line ≤ entry.1) ∧
      p.content.Pairwise fun entry other => entry.1 < other.1 :=
  ⟨fun entry hentry => h.lines entry (p.content_subset hentry),
    h.growing.sublist p.content_sublist⟩

/-- A cell and all its lines come no later than another cell. -/
def PendingCell.NotAfter (p q : PendingCell) : Prop :=
  p.line ≤ q.line ∧ ∀ entry ∈ p.lines, entry.1 ≤ q.line

/-- Cells and their lines are numbered one after the other. -/
structure NumberedCells (P : Int → Prop) (cells : List PendingCell) : Prop where
  each : ∀ p ∈ cells, p.Numbered P
  ordered : cells.Pairwise PendingCell.NotAfter

theorem NumberedCells.mono (h : NumberedCells P cells) (hPQ : ∀ n, P n → Q n) :
    NumberedCells Q cells :=
  ⟨fun p hp => ⟨hPQ _ (h.each p hp).line,
    fun entry hentry => ⟨hPQ _ ((h.each p hp).lines entry hentry).1,
      ((h.each p hp).lines entry hentry).2⟩, (h.each p hp).growing⟩, h.ordered⟩

/-- Cells and others that start no earlier than they end. -/
theorem NumberedCells.append {others : List PendingCell} (h : NumberedCells P cells)
    (hothers : NumberedCells Q others) (hle : ∀ m n, P m → Q n → m ≤ n) :
    NumberedCells (fun n => P n ∨ Q n) (cells ++ others) := by
  refine ⟨List.forall_mem_append.mpr ⟨(h.mono fun n hn => .inl hn).each,
    (hothers.mono fun n hn => .inr hn).each⟩,
    List.pairwise_append.mpr ⟨h.ordered, hothers.ordered, fun p hp q hq => ?_⟩⟩
  have hq := (hothers.each q hq).line
  exact ⟨hle _ _ (h.each p hp).line hq,
    fun entry hentry => hle _ _ ((h.each p hp).lines entry hentry).1 hq⟩

/-- Adding a line to the last cell adds it to no other. -/
theorem addToLast_concat (entry : Int × Text) (cells : List PendingCell) (p : PendingCell) :
    addToLast entry (cells ++ [p]) = cells ++ [{ p with lines := p.lines ++ [entry] }] := by
  induction cells with
  | nil => rfl
  | cons q rest ih =>
    have hne : rest ++ [p] ≠ [] := by simp
    obtain ⟨r, others, hrest⟩ := List.exists_cons_of_ne_nil hne
    rw [List.cons_append, hrest, addToLast, ← hrest, ih, List.cons_append]
    intro h
    cases h

/-- A line with a number behind all others may be added to the last cell. -/
theorem NumberedCells.addToLast {text : Text} (h : NumberedCells P cells) (hn : P number)
    (hlt : ∀ p ∈ cells, p.line < number ∧ ∀ entry ∈ p.lines, entry.1 < number) :
    NumberedCells P (addToLast (number, text) cells) := by
  rcases List.eq_nil_or_concat cells with rfl | ⟨before, p, rfl⟩
  · exact h
  · rw [List.concat_eq_append] at h hlt
    rw [List.concat_eq_append, addToLast_concat]
    obtain ⟨hbefore, hp⟩ := List.forall_mem_append.mp h.each
    have hp := List.forall_mem_singleton.mp hp
    obtain ⟨hline, hlines⟩ := hlt p (List.mem_append_right _ List.mem_cons_self)
    obtain ⟨hordered, -, hnotAfter⟩ := List.pairwise_append.mp h.ordered
    refine ⟨List.forall_mem_append.mpr ⟨hbefore, List.forall_mem_singleton.mpr ⟨hp.line, ?_, ?_⟩⟩,
      List.pairwise_append.mpr ⟨hordered, List.pairwise_singleton _ _, fun q hq r hr => ?_⟩⟩
    · refine List.forall_mem_append.mpr ⟨hp.lines, List.forall_mem_singleton.mpr ⟨hn, ?_⟩⟩
      exact Int.le_of_lt hline
    · refine List.pairwise_append.mpr ⟨hp.growing, List.pairwise_singleton _ _, fun x hx y hy => ?_⟩
      obtain rfl := List.mem_singleton.mp hy
      exact hlines x hx
    · obtain rfl := List.mem_singleton.mp hr
      exact hnotAfter q hq p List.mem_cons_self

/-- Cells that a line starts have one line each, of that number. -/
theorem mem_startCells {p : PendingCell} {number : Int} {specs texts : List Text}
    (h : p ∈ startCells number specs texts) :
    p.line = number ∧ ∃ text, p.lines = [(number, text)] := by
  obtain ⟨⟨spec, text⟩, -, rfl⟩ := List.mem_map.mp h
  exact ⟨rfl, _, rfl⟩

/-- Cells that start on one line. -/
theorem startCells_numbered (specs texts : List Text) (hn : P number) :
    NumberedCells P (startCells number specs texts) := by
  refine ⟨fun p hp => ?_, List.pairwise_of_forall_mem_list fun p hp q hq => ?_⟩
  · obtain ⟨hline, text, hlines⟩ := mem_startCells hp
    refine ⟨hline ▸ hn, ?_, ?_⟩
    · rw [hlines, hline]
      exact List.forall_mem_singleton.mpr ⟨hn, Int.le_refl _⟩
    · rw [hlines]
      exact List.pairwise_singleton _ _
  · obtain ⟨hline, text, hlines⟩ := mem_startCells hp
    obtain ⟨hline', -⟩ := mem_startCells hq
    refine ⟨Int.le_of_eq (hline.trans hline'.symm), ?_⟩
    rw [hlines, hline']
    exact List.forall_mem_singleton.mpr (Int.le_refl _)

/-- One more table line is numbered behind the cells before. -/
theorem NumberedCells.addLine {t : Token} (h : NumberedCells P cells)
    (hlt : ∀ n, P n → n < t.line) :
    NumberedCells (fun n => P n ∨ n = t.line) (addLine cells t) := by
  have hcells := h.mono (Q := fun n => P n ∨ n = t.line) fun n hn => .inl hn
  have hadded (text : Text) :
      NumberedCells (fun n => P n ∨ n = t.line) (Table.addToLast (t.line, text) cells) :=
    hcells.addToLast (.inr rfl) fun p hp =>
      ⟨hlt _ (h.each p hp).line, fun entry hentry => hlt _ ((h.each p hp).lines entry hentry).1⟩
  have hstart {before : List PendingCell} (specs texts : List Text)
      (hbefore : NumberedCells (fun n => P n ∨ n = t.line) before) :
      NumberedCells (fun n => P n ∨ n = t.line)
        (before ++ startCells t.line specs texts) := by
    have hnew := startCells_numbered (P := fun n => n = t.line) specs texts rfl
    refine (hbefore.append hnew fun m n hm hn => ?_).mono fun n hn => hn.elim id .inr
    exact hn ▸ hm.elim (fun hm => Int.le_of_lt (hlt m hm)) Int.le_of_eq
  unfold Table.addLine
  split
  · exact hcells
  · split
    · exact hadded []
    · exact hcells
  · dsimp only
    apply hstart
    split
    · exact hcells
    · exact hadded _

/-- Further lines are numbered behind the cells before. -/
theorem NumberedCells.addLines {body : List Token} (h : NumberedCells P cells)
    (hbody : body.Pairwise fun t u => t.line < u.line) (hlt : ∀ n, P n → ∀ t ∈ body, n < t.line) :
    NumberedCells (fun n => P n ∨ ∃ t ∈ body, t.line = n) (body.foldl Table.addLine cells) := by
  induction body generalizing cells P with
  | nil => exact h.mono fun n hn => .inl hn
  | cons t rest ih =>
    obtain ⟨ht, hrest⟩ := List.pairwise_cons.mp hbody
    have hstep := h.addLine fun n hn => hlt n hn t List.mem_cons_self
    refine (ih hstep hrest fun n hn u hu => ?_).mono fun n hn => ?_
    · rcases hn with hn | rfl
      · exact hlt n hn u (List.mem_cons_of_mem _ hu)
      · exact ht u hu
    · rcases hn with (hn | rfl) | ⟨u, hu, rfl⟩
      · exact .inl hn
      · exact .inr ⟨t, List.mem_cons_self, rfl⟩
      · exact .inr ⟨u, List.mem_cons_of_mem _ hu, rfl⟩

/-- The cells of lines whose numbers go forward are numbered one after the other. -/
theorem cells_numbered {body : List Token} (hbody : body.Pairwise fun t u => t.line < u.line) :
    NumberedCells (fun n => ∃ t ∈ body, t.line = n) (Table.cells body) := by
  have hnone : NumberedCells (fun _ => False) [] := ⟨nofun, .nil⟩
  exact (hnone.addLines hbody nofun).mono fun n hn => hn.resolve_left id

end Asciidoc.Table

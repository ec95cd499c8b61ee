/-
  Unbundle.Proofs.Schema.Partition — the one way in which lines fall into a header and blocks.

  Lines are cut into a front and shares, one share for each block. No line of the front opens a block; the first
  line of a share does; behind it, up to the next share, lines open and close levels above depth 0 only, and at
  the end of every share but the last all its levels are closed.

  - `cut_unique`: lines have one cut at most.
  - `follows_next`, `follows_feed`: a scan follows the cut of the lines it kept.
  - `scan_is_cut`: what is scanned is the header lines of the front, and of every share the lines that announce
    no command id.
-/

import Mathlib.Data.List.Forall2
import Unbundle.Proofs.Schema.Run

namespace Unbundle

open Line

/-- The lines of one block. -/
structure Share where
  name : String
  opening : String
  /-- The lines behind the opening one, up to the next share. -/
  rest : List String

/-- Lines cut into those in front of the first block and the shares of the blocks. -/
structure Cut where
  front : List String
  shares : List Share

def Share.lines (p : Share) : List String := p.opening :: p.rest

/-- The opening line opens the block at depth 0; those behind it keep above that. -/
def Share.Fits (v : Vocabulary) (p : Share) : Prop := Opens v p.opening p.name ∧ Inside v 1 p.rest

/-- The cut of lines by the openings of their blocks. -/
structure Cut.Cuts (v : Vocabulary) (c : Cut) (lines : List String) : Prop where
  lines_eq : lines = c.front ++ c.shares.flatMap Share.lines
  front : ∀ line ∈ c.front, IsHeader v line ∨ ¬ ((∃ name, Opens v line name) ∨ Closes line)
  /-- Until a block is open, header lines open none. -/
  first : ∀ line, (c.shares.map Share.opening).head? = some line → ¬ IsHeader v line
  fits : ∀ p ∈ c.shares, p.Fits v
  closed : ∀ p ∈ c.shares.dropLast, levels v p.lines = 0

variable {v : Vocabulary}

theorem Share.Fits.levels_lines {p : Share} (h : p.Fits v) : levels v p.lines = 1 + levels v p.rest := by
  rw [Share.lines, ← List.singleton_append, levels_append, levels_of_opens h.1]

/-! ## A cut is the only one -/

/-- A share does not reach over the opening line of the next one. -/
theorem rest_eq_of_append {p p' : Share} {shares : List Share} {more behind : List String} (hp : p.Fits v)
    (hp' : p'.Fits v) (hf : ∀ q ∈ shares, q.Fits v) (hc : shares ≠ [] → levels v p.lines = 0)
    (hrest : p'.rest = p.rest ++ more) (hlines : shares.flatMap Share.lines = more ++ behind) : more = [] := by
  cases more with
  | nil => rfl
  | cons line more =>
    cases shares with
    | nil => simp at hlines
    | cons q shares =>
      have hq : q.opening = line := by
        simp only [List.flatMap_cons, Share.lines, List.cons_append, List.cons.injEq] at hlines
        exact hlines.1
      have ho : Opens v line q.name := hq ▸ (hf q (List.mem_cons_self ..)).1
      have hlevel := hp'.2 p.rest line more hrest (.inl ⟨_, ho⟩)
      have hzero := hc (List.cons_ne_nil _ _)
      rw [hp.levels_lines] at hzero
      omega

theorem closed_tail {p : Share} {shares : List Share} (h : ∀ q ∈ (p :: shares).dropLast, levels v q.lines = 0) :
    ∀ q ∈ shares.dropLast, levels v q.lines = 0 := by
  intro q hq
  refine h q ?_
  rw [List.dropLast_cons_of_ne_nil (by rintro rfl; simp at hq)]
  exact List.mem_cons_of_mem _ hq

theorem shares_unique {shares shares' : List Share} (h : shares.flatMap Share.lines = shares'.flatMap Share.lines)
    (hf : ∀ p ∈ shares, p.Fits v) (hf' : ∀ p ∈ shares', p.Fits v)
    (hc : ∀ p ∈ shares.dropLast, levels v p.lines = 0) (hc' : ∀ p ∈ shares'.dropLast, levels v p.lines = 0) :
    shares = shares' := by
  induction shares generalizing shares' with
  | nil =>
    cases shares' with
    | nil => rfl
    | cons p' shares' => simp [Share.lines] at h
  | cons p shares ih =>
    cases shares' with
    | nil => simp [Share.lines] at h
    | cons p' shares' =>
      simp only [List.flatMap_cons, Share.lines, List.cons_append, List.cons.injEq] at h
      obtain ⟨hopening, h⟩ := h
      have hp := hf p (List.mem_cons_self ..)
      have hp' := hf' p' (List.mem_cons_self ..)
      have hcp : shares ≠ [] → levels v p.lines = 0 := fun hne => hc p (by
        rw [List.dropLast_cons_of_ne_nil hne]
        exact List.mem_cons_self ..)
      have hcp' : shares' ≠ [] → levels v p'.lines = 0 := fun hne => hc' p' (by
        rw [List.dropLast_cons_of_ne_nil hne]
        exact List.mem_cons_self ..)
      have hrest : p.rest = p'.rest := by
        rcases List.append_eq_append_iff.mp h with ⟨more, hrest, hlines⟩ | ⟨more, hrest, hlines⟩
        · rw [hrest, rest_eq_of_append hp hp' (fun q hq => hf q (List.mem_cons_of_mem _ hq)) hcp hrest hlines,
            List.append_nil]
        · rw [hrest, rest_eq_of_append hp' hp (fun q hq => hf' q (List.mem_cons_of_mem _ hq)) hcp' hrest hlines,
            List.append_nil]
      have hname : p.name = p'.name := hp.1.unique (hopening ▸ hp'.1)
      have hpp : p = p' := by
        cases p
        cases p'
        simp_all
      rw [hrest, List.append_cancel_left_eq] at h
      rw [hpp, ih h (fun q hq => hf q (List.mem_cons_of_mem _ hq)) (fun q hq => hf' q (List.mem_cons_of_mem _ hq))
        (closed_tail hc) (closed_tail hc')]

/-- The front ends at the first line that opens a block. -/
theorem Cut.Cuts.front_eq {c : Cut} {lines : List String} (h : c.Cuts v lines) : c.front =
    lines.takeWhile fun line => IsHeader v line ∨ ¬ ((∃ name, Opens v line name) ∨ Closes line) := by
  rw [h.lines_eq, List.takeWhile_append_of_pos fun line hl => decide_eq_true (h.front line hl)]
  cases hs : c.shares with
  | nil => simp
  | cons p shares =>
    have hh : ¬ IsHeader v p.opening := h.first _ (by simp [hs])
    have ho : ∃ name, Opens v p.opening name := ⟨_, (h.fits p (by simp [hs])).1⟩
    simp [Share.lines, hh, ho]

theorem cut_unique {c c' : Cut} {lines : List String} (h : c.Cuts v lines) (h' : c'.Cuts v lines) : c = c' := by
  have hfront : c.front = c'.front := h.front_eq.trans h'.front_eq.symm
  have hlines := h.lines_eq.symm.trans h'.lines_eq
  rw [hfront, List.append_cancel_left_eq] at hlines
  have hshares := shares_unique hlines h.fits h'.fits h.closed h'.closed
  cases c
  cases c'
  simp_all

/-! ## A cut grows line by line -/

theorem Cut.Cuts.nil : (⟨[], []⟩ : Cut).Cuts v [] := ⟨rfl, by simp, by simp, by simp, by simp⟩

theorem Cut.Cuts.extendFront {front lines : List String} {line : String} (h : (⟨front, []⟩ : Cut).Cuts v lines)
    (hline : IsHeader v line ∨ ¬ ((∃ name, Opens v line name) ∨ Closes line)) :
    (⟨front ++ [line], []⟩ : Cut).Cuts v (lines ++ [line]) := by
  refine ⟨by simp [h.lines_eq], fun l hl => ?_, by simp, by simp, by simp⟩
  rcases List.mem_append.mp hl with hl | hl
  · exact h.front l hl
  · rw [List.mem_singleton.mp hl]
    exact hline

theorem Cut.Cuts.openShare {c : Cut} {lines : List String} {line name : String} (h : c.Cuts v lines)
    (hline : Opens v line name) (hfirst : c.shares = [] → ¬ IsHeader v line)
    (hclosed : ∀ p ∈ c.shares, levels v p.lines = 0) :
    (⟨c.front, c.shares ++ [⟨name, line, []⟩]⟩ : Cut).Cuts v (lines ++ [line]) where
  lines_eq := by simp [h.lines_eq, Share.lines]
  front := h.front
  first := by
    intro l hl
    cases hs : c.shares with
    | nil =>
      obtain rfl : line = l := by simpa [hs] using hl
      exact hfirst hs
    | cons p shares => exact h.first l (by simpa [hs] using hl)
  fits := by
    intro p hp
    rcases List.mem_append.mp hp with hp | hp
    · exact h.fits p hp
    · rw [List.mem_singleton.mp hp]
      exact ⟨hline, .nil 1⟩
  closed := by simpa using hclosed

theorem Cut.Cuts.extendShare {front lines : List String} {shares : List Share} {p : Share} {line : String}
    (h : (⟨front, shares ++ [p]⟩ : Cut).Cuts v lines)
    (hline : (∃ name, Opens v line name) ∨ Closes line → 0 < levels v p.lines) :
    (⟨front, shares ++ [{ p with rest := p.rest ++ [line] }]⟩ : Cut).Cuts v (lines ++ [line]) where
  lines_eq := by simp [h.lines_eq, Share.lines]
  front := h.front
  first := fun l hl => h.first l (by simpa using hl)
  fits := by
    intro q hq
    rcases List.mem_append.mp hq with hq | hq
    · exact h.fits q (List.mem_append_left _ hq)
    · rw [List.mem_singleton.mp hq]
      have hp : p.Fits v := h.fits p (by simp)
      rw [hp.levels_lines] at hline
      exact ⟨hp.1, inside_concat_iff.mpr ⟨hp.2, hline⟩⟩
  closed := by simpa using h.closed

/-! ## A scan follows the cut -/

/-- A block that took in the lines of a share. -/
def Share.Reads (v : Vocabulary) (p : Share) (b : Block) : Prop :=
  ∃ id, b = p.rest.foldl (Block.absorb v) (.opened p.name id p.opening)

namespace Share.Reads

variable {p : Share} {b : Block}

theorem name_eq (h : p.Reads v b) : b.name = p.name := by
  obtain ⟨id, rfl⟩ := h
  simp [Block.opened]

theorem body_eq_cons (h : p.Reads v b) : b.body = p.opening :: p.rest.filter fun line => ¬ Announces v line := by
  obtain ⟨id, rfl⟩ := h
  rw [Block.foldl_absorb_body]
  rfl

theorem body_eq (h : p.Reads v b) (hp : p.Fits v) : b.body = p.lines.filter fun line => ¬ Announces v line := by
  have hopening : ¬ Announces v p.opening := hp.1.1
  rw [h.body_eq_cons, lines, List.filter_cons_of_pos (by simpa using hopening)]

theorem references_eq (h : p.Reads v b) : b.references = p.rest.filterMap (Line.reference? v) := by
  obtain ⟨id, rfl⟩ := h
  rw [Block.foldl_absorb_references]
  rfl

theorem mem_nested_iff (h : p.Reads v b) {name : String} :
    name ∈ b.nested ↔ ∃ line ∈ p.rest, Opens v line name := by
  obtain ⟨id, rfl⟩ := h
  rw [Block.mem_foldl_absorb_nested]
  simp [Block.opened]

end Share.Reads

/-- Lists related member by member agree in what related members agree in. -/
theorem map_eq_of_forall₂ {α β γ : Type} {r : α → β → Prop} {l : List α} {m : List β} {f : β → γ} {g : α → γ}
    (h : List.Forall₂ r l m) (hr : ∀ a b, r a b → f b = g a) : m.map f = l.map g := by
  induction h with
  | nil => rfl
  | cons hab _ ih => rw [List.map_cons, List.map_cons, hr _ _ hab, ih]

theorem exists_mem_of_forall₂ {α β : Type} {r : α → β → Prop} {l : List α} {m : List β} (h : List.Forall₂ r l m) {b : β}
    (hb : b ∈ m) : ∃ a ∈ l, r a b := by
  induction h with
  | nil => cases hb
  | cons hab _ ih =>
    rcases List.mem_cons.mp hb with rfl | hb
    · exact ⟨_, List.mem_cons_self, hab⟩
    · obtain ⟨a, ha, hr⟩ := ih hb
      exact ⟨a, List.mem_cons_of_mem _ ha, hr⟩

namespace Scan

/-- A scan that holds the header and the blocks of a cut. -/
inductive Follows (v : Vocabulary) : Scan → Cut → Prop
  | front {s : Scan} {front : List String} : s.current? = none → s.earlier = [] → s.depth = 0 →
      s.header = front.filter (IsHeader v ·) → Follows v s ⟨front, []⟩
  | inside {s : Scan} {front : List String} {shares : List Share} {p : Share} {b : Block} : s.current? = some b →
      List.Forall₂ (Share.Reads v) shares s.earlier → p.Reads v b → (s.depth : Int) = levels v p.lines →
      s.header = front.filter (IsHeader v ·) → Follows v s ⟨front, shares ++ [p]⟩

theorem Follows.header {s : Scan} {c : Cut} (h : Follows v s c) : s.header = c.front.filter (IsHeader v ·) := by
  cases h <;> assumption

theorem Follows.blocks {s : Scan} {c : Cut} (h : Follows v s c) : List.Forall₂ (Share.Reads v) c.shares s.blocks := by
  cases h with
  | front hc he _ _ => simp [Scan.blocks, hc, he]
  | inside hc he hp _ _ =>
    rw [Scan.blocks, hc]
    exact List.rel_append he (.cons hp .nil)

theorem follows_next_front {s : Scan} {front lines : List String} (hcur : s.current? = none) (he : s.earlier = [])
    (hd : s.depth = 0) (hh : s.header = front.filter (IsHeader v ·)) (hc : (⟨front, []⟩ : Cut).Cuts v lines)
    (line : String) : ∃ c', Follows v (s.next v line) c' ∧ c'.Cuts v (lines ++ s.kept v [line]) := by
  by_cases hhead : IsHeader v line
  · obtain ⟨hr, hn⟩ := next_header hcur hhead
    rw [kept_singleton, hr, hn]
    exact ⟨_, .front hcur he hd (by simp [hh, hhead]), hc.extendFront (.inl hhead)⟩
  by_cases hidle : (∃ name, Opens v line name) ∨ Closes line
  · rcases hidle with ⟨name, ho⟩ | hcl
    · obtain ⟨hr, hn⟩ := next_open (.inr hhead) (.inl hcur) ho
      rw [kept_singleton, hr, hn]
      refine ⟨_, .inside rfl ?_ ⟨s.pending, rfl⟩ ?_ hh, hc.openShare ho (fun _ => hhead) (by simp)⟩
      · simp [openBlock, Scan.blocks, hcur, he]
      · simp [openBlock, hd, Share.lines, levels_of_opens ho]
    · obtain ⟨hr, hn⟩ := next_refused (.inr hhead) hd hcl
      rw [kept_singleton, hr, hn, if_pos rfl, List.append_nil]
      exact ⟨_, .front hcur he hd hh, hc⟩
  · obtain ⟨hr, id, _, hn⟩ := next_idle hcur hhead hidle
    rw [kept_singleton, hr, hn]
    exact ⟨_, .front hcur he hd (by simp [hh, hhead]), hc.extendFront (.inr hidle)⟩

theorem follows_next_inside {s : Scan} {front lines : List String} {shares : List Share} {p : Share} {b : Block}
    (hcur : s.current? = some b) (he : List.Forall₂ (Share.Reads v) shares s.earlier) (hp : p.Reads v b)
    (hd : (s.depth : Int) = levels v p.lines) (hh : s.header = front.filter (IsHeader v ·))
    (hc : (⟨front, shares ++ [p]⟩ : Cut).Cuts v lines) (line : String) :
    ∃ c', Follows v (s.next v line) c' ∧ c'.Cuts v (lines ++ s.kept v [line]) := by
  by_cases hline : (∃ name, Opens v line name) ∨ Closes line → 0 < s.depth
  · obtain ⟨hr, hcur', hd', he', hh'⟩ := next_absorb hcur hline
    rw [kept_singleton, hr]
    refine ⟨_, .inside hcur' (he' ▸ he) ?_ ?_ (hh'.trans hh), hc.extendShare fun hl => ?_⟩
    · obtain ⟨id, rfl⟩ := hp
      exact ⟨id, by rw [List.foldl_append]; rfl⟩
    · rw [hd', hd, ← levels_append]
      rfl
    · have := hline hl
      omega
  · rw [Classical.not_imp] at hline
    obtain ⟨hl, hzero⟩ := hline
    have hzero : s.depth = 0 := by omega
    rcases hl with ⟨name, ho⟩ | hcl
    · obtain ⟨hr, hn⟩ := next_open (.inl (by simp [hcur])) (.inr hzero) ho
      rw [kept_singleton, hr, hn]
      have hclosed : ∀ q ∈ shares ++ [p], levels v q.lines = 0 := by
        intro q hq
        rcases List.mem_append.mp hq with hq | hq
        · exact hc.closed q (by simpa using hq)
        · rw [List.mem_singleton.mp hq]
          omega
      refine ⟨_, .inside rfl ?_ ⟨s.pending, rfl⟩ ?_ hh, hc.openShare ho (by simp) hclosed⟩
      · rw [show (s.openBlock name line).earlier = s.earlier ++ [b] by simp [openBlock, Scan.blocks, hcur]]
        exact List.rel_append he (.cons hp .nil)
      · simp [openBlock, hzero, Share.lines, levels_of_opens ho]
    · obtain ⟨hr, hn⟩ := next_refused (.inl (by simp [hcur])) hzero hcl
      rw [kept_singleton, hr, hn, if_pos rfl, List.append_nil]
      exact ⟨_, .inside hcur he hp hd hh, hc⟩

/-- One more line: the cut grows by it, unless it is refused. -/
theorem follows_next {s : Scan} {c : Cut} {lines : List String} (h : Follows v s c) (hc : c.Cuts v lines)
    (line : String) : ∃ c', Follows v (s.next v line) c' ∧ c'.Cuts v (lines ++ s.kept v [line]) := by
  cases h with
  | front hcur he hd hh => exact follows_next_front hcur he hd hh hc line
  | inside hcur he hp hd hh => exact follows_next_inside hcur he hp hd hh hc line

theorem follows_feed (v : Vocabulary) (lines : List String) :
    ∃ c, Follows v (start.feed v lines) c ∧ c.Cuts v (start.kept v lines) := by
  induction lines using List.reverseRecOn with
  | nil => exact ⟨⟨[], []⟩, .front rfl rfl rfl rfl, .nil⟩
  | append_singleton lines line ih =>
    obtain ⟨c, hf, hc⟩ := ih
    rw [feed_append, kept_append]
    exact follows_next hf hc line

/-- Every block took in the lines of a share, whatever lines were refused on the way. -/
theorem exists_share_of_mem_feed {lines : List String} {b : Block} (h : b ∈ (start.feed v lines).blocks) :
    ∃ p : Share, p.Fits v ∧ p.Reads v b := by
  obtain ⟨c, hf, hc⟩ := follows_feed v lines
  obtain ⟨p, hp, hReads⟩ := exists_mem_of_forall₂ hf.blocks h
  exact ⟨p, hc.fits p hp, hReads⟩

/-- Every block of a schema took in the lines of a share. -/
theorem exists_share {lines : List String} {schema : Schema} (h : (Schema.ofLines v lines).value = .ok schema) :
    (∀ line ∈ schema.header, IsHeader v line) ∧ ∀ b ∈ schema.blocks, ∃ p : Share, p.Fits v ∧ p.Reads v b := by
  obtain ⟨_, rfl⟩ := Schema.ofLines_eq_ok_iff.mp h
  obtain ⟨c, hf, _⟩ := follows_feed v lines
  refine ⟨fun line hLine => ?_, fun b hb => exists_share_of_mem_feed hb⟩
  rw [hf.header] at hLine
  exact of_decide_eq_true (List.mem_filter.mp hLine).2

/-- What is scanned is the header and the blocks of the only cut of the lines that were not refused: the header
    lines of the front, and for every share a block with its name, its lines less those that announce a command
    id, and the names that lines behind its opening line open. -/
theorem scan_is_cut (v : Vocabulary) (lines : List String) : ∃ c : Cut,
    (∀ c', c'.Cuts v (start.kept v lines) ↔ c' = c) ∧
    let schema := (start.feed v lines).finish.value
    schema.header = c.front.filter (IsHeader v ·) ∧
    schema.blocks.map Block.name = c.shares.map Share.name ∧
    schema.blocks.map Block.body = c.shares.map (fun p => p.lines.filter fun line => ¬ Announces v line) ∧
    List.Forall₂ (fun p b => ∀ name, name ∈ b.nested ↔ ∃ line ∈ p.rest, Opens v line name) c.shares schema.blocks := by
  obtain ⟨c, hf, hc⟩ := follows_feed v lines
  have hshares : List.Forall₂ (fun p b => p.Fits v ∧ p.Reads v b) c.shares (start.feed v lines).blocks :=
    (List.forall₂_and_left _ _).mpr ⟨hc.fits, hf.blocks⟩
  rw [value_finish]
  refine ⟨c, fun c' => ⟨fun h => cut_unique h hc, fun h => h ▸ hc⟩, hf.header, ?_, ?_, ?_⟩
  · exact map_eq_of_forall₂ hshares fun p b h => h.2.name_eq
  · exact map_eq_of_forall₂ hshares fun p b h => h.2.body_eq h.1
  · exact hshares.imp fun p b h name => h.2.mem_nested_iff

/-- A header line, and two blocks of which the first has a level of its own; no line is refused. -/
example :
    let v := Vocabulary.standard Vocabulary.defaultSuppressed Vocabulary.defaultMarker
    let lines := ["syntax = \"proto3\";", "// CmdId: 7", "message Ping \x7b", "  oneof kind \x7b", "  \x7d", "\x7d",
      "enum Code \x7b", "\x7d"]
    let schema := (start.feed v lines).finish.value
    start.kept v lines = lines ∧ schema.header = ["syntax = \"proto3\";"] ∧
      schema.blocks.map (fun b => (b.name, b.nested)) = [("Ping", ["kind"]), ("Code", [])] ∧
      schema.blocks.map Block.body = [["message Ping \x7b", "  oneof kind \x7b", "  \x7d", "\x7d"],
        ["enum Code \x7b", "\x7d"]] := by
  decide +kernel

end Scan

end Unbundle

/-
  Unbundle.Proofs.Verdicts — all that a resolution does to a list of blocks.

  Of the names that a block mentions, each is imported that is no level of the block, at the place of its first
  mention. The verdicts follow rules, each of which decides what the rules above it leave. Which names look obfuscated
  is what a library makes of the pattern; with the readers of this project, the pattern matches a part of the name.

  - `firstMentions_pruned`: which mentions a block keeps.
  - `judge_eq_iff`: when a block is given a verdict.
  - `suspects_make_iff`, `suspects_iff_of_reads`: which names a pattern makes look obfuscated.
  - `suspects_default_iff`: unless a user says otherwise, names of capital letters do.
  - `resolution_exact`: all of it about one list of blocks.
-/

import Unbundle.Proofs.Imports
import Unbundle.Proofs.Pattern.Reading
import Unbundle.Proofs.Selection

namespace Unbundle

/-! ## First mentions -/

/-- The name at the place `i` is not among the names left out, and stands at no place before. -/
def IsFirstMention (names omitted : List String) (i : Nat) : Prop :=
  ∃ name, names[i]? = some name ∧ name ∉ omitted ∧ name ∉ names.take i

/-- The names at the places of all first mentions, from the front. -/
def FirstMentions (names omitted mentioned : List String) : Prop :=
  ∃ places : List Nat, places.Pairwise (· < ·) ∧ (∀ i, i ∈ places ↔ IsFirstMention names omitted i) ∧
    mentioned.map some = places.map (names[·]?)

theorem IsFirstMention.lt {names omitted : List String} {i : Nat} (h : IsFirstMention names omitted i) :
    i < names.length := by
  obtain ⟨name, hName, _⟩ := h
  exact (List.getElem?_eq_some_iff.mp hName).1

/-- One more name is a first mention if no other mention has it. -/
theorem isFirstMention_concat_iff {names omitted : List String} {last : String} {i : Nat} :
    IsFirstMention (names ++ [last]) omitted i ↔
      IsFirstMention names omitted i ∨ (i = names.length ∧ last ∉ omitted ∧ last ∉ names) := by
  unfold IsFirstMention
  rcases Nat.lt_trichotomy i names.length with hBefore | rfl | hBehind
  · rw [List.getElem?_append_left hBefore, List.take_append_of_le_length (Nat.le_of_lt hBefore)]
    exact (or_iff_left fun h => absurd h.1 (Nat.ne_of_lt hBefore)).symm
  · rw [List.getElem?_concat_length, List.take_left' rfl, List.getElem?_eq_none (Nat.le_refl _)]
    simp
  · rw [List.getElem?_eq_none (by simp; omega), List.getElem?_eq_none (Nat.le_of_lt hBehind)]
    simp
    omega

namespace FirstMentions

variable {names omitted mentioned : List String} {last : String}

theorem nil : FirstMentions [] omitted [] := by
  refine ⟨[], List.Pairwise.nil, fun i => ?_, rfl⟩
  constructor
  · intro h
    cases h
  · intro h
    exact absurd h.lt (Nat.not_lt_zero i)

/-- The places so far lie within the names so far, so one more name changes nothing there. -/
theorem concat_places {places : List Nat} (hPlaces : ∀ i, i ∈ places ↔ IsFirstMention names omitted i) (last : String) :
    (∀ i ∈ places, i < names.length) ∧ places.map ((names ++ [last])[·]?) = places.map (names[·]?) := by
  have hWithin : ∀ i ∈ places, i < names.length := fun i hi => ((hPlaces i).mp hi).lt
  exact ⟨hWithin, List.map_congr_left fun i hi => List.getElem?_append_left (hWithin i hi)⟩

theorem concat_new (h : FirstMentions names omitted mentioned) (hNew : last ∉ omitted ∧ last ∉ names) :
    FirstMentions (names ++ [last]) omitted (mentioned ++ [last]) := by
  obtain ⟨places, hOrder, hPlaces, hMentioned⟩ := h
  obtain ⟨hWithin, hKept⟩ := concat_places hPlaces last
  refine ⟨places ++ [names.length], ?_, fun i => ?_, ?_⟩
  · refine List.pairwise_append.mpr ⟨hOrder, List.pairwise_singleton _ _, fun i hi j hj => ?_⟩
    rw [List.mem_singleton.mp hj]
    exact hWithin i hi
  · rw [isFirstMention_concat_iff, List.mem_append, hPlaces, List.mem_singleton, and_iff_left hNew]
  · rw [List.map_append, List.map_append, hMentioned, hKept]
    simp

theorem concat_old (h : FirstMentions names omitted mentioned) (hOld : ¬ (last ∉ omitted ∧ last ∉ names)) :
    FirstMentions (names ++ [last]) omitted mentioned := by
  obtain ⟨places, hOrder, hPlaces, hMentioned⟩ := h
  obtain ⟨_, hKept⟩ := concat_places hPlaces last
  refine ⟨places, hOrder, fun i => ?_, hMentioned.trans hKept.symm⟩
  rw [isFirstMention_concat_iff, hPlaces]
  exact (or_iff_left fun h => hOld h.2).symm

end FirstMentions

theorem eraseDups_filter_concat (names omitted : List String) (last : String) :
    ((names ++ [last]).filter fun name => !omitted.contains name).eraseDups =
      (names.filter fun name => !omitted.contains name).eraseDups ++
        if last ∉ omitted ∧ last ∉ names then [last] else [] := by
  rw [List.filter_append, List.eraseDups_append]
  by_cases hOmitted : last ∈ omitted
  · simp [List.removeAll, hOmitted]
  · by_cases hOld : last ∈ names
    · simp [List.removeAll, hOmitted, hOld]
    · simp [List.removeAll, List.eraseDups_cons, hOmitted, hOld]

theorem firstMentions_eraseDups (names omitted : List String) :
    FirstMentions names omitted (names.filter fun name => !omitted.contains name).eraseDups := by
  induction names using List.reverseRecOn with
  | nil => exact .nil
  | append_singleton names last ih =>
    rw [eraseDups_filter_concat]
    split
    · exact ih.concat_new ‹_›
    · rw [List.append_nil]
      exact ih.concat_old ‹_›

theorem firstMentions_pruned (b : Block) : FirstMentions b.references b.nested b.pruned.references :=
  firstMentions_eraseDups b.references b.nested

theorem mem_references_pruned_iff (b : Block) {name : String} :
    name ∈ b.pruned.references ↔ name ∈ b.references ∧ name ∉ b.nested := by
  rw [Block.pruned, List.mem_eraseDups, List.mem_filter]
  simp

namespace Selection

open Pattern (Expr)

/-! ## Suspicious names -/

variable {s : Selection} {name : String}

/-- Names are looked at, and this one is found to look obfuscated. -/
def Suspects (s : Selection) (name : String) : Prop := ∃ found, s.obfuscated? = some found ∧ found name = true

/-- Names are looked at for an expression that was read from a text. -/
def Reads (s : Selection) (e : Expr) : Prop :=
  (∃ pattern, Pattern.read? pattern = some e) ∧ s.obfuscated? = some e.isFoundIn

theorem looksObfuscated_iff : s.looksObfuscated name = true ↔ s.Suspects name := by
  unfold looksObfuscated Suspects
  cases s.obfuscated? with
  | none => simp
  | some found => simp

/-- The selection for a pattern suspects what the library finds by it, and nothing if the pattern is empty. -/
theorem suspects_make_iff [Formats] {pattern : String} {blacklist : List String}
    (h : make pattern blacklist = .ok s) :
    s.Suspects name ↔ pattern ≠ "" ∧ ∃ found, Formats.pattern pattern = .ok found ∧ found name = true := by
  obtain ⟨hEmpty, rfl⟩ | ⟨hSet, found, hFound, rfl⟩ := make_eq_ok_iff.mp h
  · simp [Suspects, hEmpty]
  · simp [Suspects, hSet, hFound]

theorem blacklist_make [Formats] {pattern : String} {blacklist : List String} (h : make pattern blacklist = .ok s) :
    s.blacklist = blacklist := by
  obtain ⟨_, rfl⟩ | ⟨_, _, _, rfl⟩ := make_eq_ok_iff.mp h
  · rfl
  · rfl

/-- A pattern that the readers of this project take is looked for as the expression it stands for. -/
theorem exists_reads_of_make {pattern : String} {blacklist : List String} (h : make pattern blacklist = .ok s)
    (hSet : pattern ≠ "") : ∃ e, Pattern.read? pattern = some e ∧ s.Reads e := by
  obtain ⟨hEmpty, _⟩ | ⟨_, found, hFound, rfl⟩ := make_eq_ok_iff.mp h
  · exact absurd hEmpty hSet
  have hRead : Formats.pattern pattern = (Pattern.read? pattern).elim (.error "not a regular expression")
      fun e => .ok e.isFoundIn := rfl
  rw [hRead] at hFound
  rcases hPattern : Pattern.read? pattern with _ | e
  · rw [hPattern] at hFound
    cases hFound
  · rw [hPattern] at hFound
    cases hFound
    exact ⟨e, rfl, ⟨pattern, hPattern⟩, rfl⟩

theorem suspects_iff_of_reads {e : Expr} (h : s.Reads e) : s.Suspects name ↔ e.MatchesPart name := by
  obtain ⟨⟨pattern, hPattern⟩, hFound⟩ := h
  rw [← Expr.isFoundIn_iff (Pattern.wellCounted_of_read? hPattern)]
  simp [Suspects, hFound]

/-- Capital letters, from the start of a text to its end. -/
def capitals : Expr :=
  .seq (.assertion .textStart) (.seq (.times (.set (.range 65 90)) 1 none) (.assertion .textEnd))

theorem mem_capitals_iff (c : Char) :
    (Pattern.CharSet.range 65 90).mem c.toNat = true ↔ 'A' ≤ c ∧ c ≤ 'Z' := by
  have hLetters : ('A' ≤ c ∧ c ≤ 'Z') ↔ 65 ≤ c.toNat ∧ c.toNat ≤ 90 := Iff.rfl
  rw [hLetters]
  simp [Pattern.CharSet.mem, Pattern.CharSet.range, Text.inRanges]

theorem matches_capitals_iff {before after : Option Char} {cs : List Char} :
    capitals.Matches before cs after ↔
      before = none ∧ after = none ∧ cs ≠ [] ∧ ∀ c ∈ cs, 'A' ≤ c ∧ c ≤ 'Z' := by
  simp only [← mem_capitals_iff]
  constructor
  · rintro ⟨_, _, rfl, ⟨rfl, hStart⟩, u, _, rfl, ⟨n, ⟨hSome, _⟩, hRounds⟩, rfl, hEnd⟩
    obtain ⟨rfl, hLetters⟩ := Expr.rounds_set_iff.mp hRounds
    rw [List.nil_append, List.append_nil]
    exact ⟨Option.isNone_iff_eq_none.mp hStart, Option.isNone_iff_eq_none.mp hEnd,
      List.ne_nil_of_length_pos hSome, hLetters⟩
  · rintro ⟨rfl, rfl, hSome, hLetters⟩
    refine ⟨[], cs, rfl, ⟨rfl, rfl⟩, cs, [], (List.append_nil cs).symm, ⟨cs.length, ?_, ?_⟩, rfl, rfl⟩
    · exact ⟨List.length_pos_iff.mpr hSome, fun _ hMost => nomatch hMost⟩
    · exact Expr.rounds_set_iff.mpr ⟨rfl, hLetters⟩

theorem reads_default : default.Reads capitals := by
  refine ⟨⟨defaultPattern, read?_defaultPattern⟩, ?_⟩
  rw [default, read?_defaultPattern]
  rfl

theorem suspects_default_iff : default.Suspects name ↔ name ≠ "" ∧ ∀ c ∈ name.toList, 'A' ≤ c ∧ c ≤ 'Z' := by
  have hEmpty : name = "" ↔ name.toList = [] := String.toList_eq_nil_iff.symm
  rw [suspects_iff_of_reads reads_default, ne_eq, hEmpty]
  constructor
  · rintro ⟨front, part, rest, hName, hMatch⟩
    obtain ⟨hFront, hRest, hLetters⟩ := matches_capitals_iff.mp hMatch
    rw [List.getLast?_eq_none_iff.mp hFront, List.head?_eq_none_iff.mp hRest, List.nil_append, List.append_nil] at hName
    rwa [hName]
  · intro hLetters
    refine ⟨[], name.toList, [], (List.append_nil _).symm, ?_⟩
    exact matches_capitals_iff.mpr ⟨rfl, rfl, hLetters⟩

/-! ## Verdicts -/

/-- The rules for the verdict on a block, given whether some block imports it. No two of them apply to one block. -/
inductive Rule (s : Selection) (b : Block) (isImported : Prop) : Eligibility → Prop
  | blacklisted : b.name ∈ s.blacklist → Rule s b isImported .blacklisted
  | obfuscated : b.name ∉ s.blacklist → b.commandId ≠ 0 → s.Suspects b.name → Rule s b isImported .obfuscated
  | command : b.name ∉ s.blacklist → b.commandId ≠ 0 → ¬ s.Suspects b.name → Rule s b isImported .command
  | dependency : b.name ∉ s.blacklist → b.commandId = 0 → isImported → Rule s b isImported .dependency
  | unreferenced : b.name ∉ s.blacklist → b.commandId = 0 → ¬ isImported → Rule s b isImported .unreferenced

theorem exists_rule (s : Selection) (b : Block) (isImported : Prop) : ∃ e, Rule s b isImported e := by
  by_cases hListed : b.name ∈ s.blacklist
  · exact ⟨_, .blacklisted hListed⟩
  by_cases hId : b.commandId = 0
  · by_cases hImported : isImported
    · exact ⟨_, .dependency hListed hId hImported⟩
    · exact ⟨_, .unreferenced hListed hId hImported⟩
  · by_cases hSuspect : s.Suspects b.name
    · exact ⟨_, .obfuscated hListed hId hSuspect⟩
    · exact ⟨_, .command hListed hId hSuspect⟩

theorem judge_of_rule {imported : List String} {b : Block} {e : Eligibility} (h : Rule s b (b.name ∈ imported) e) :
    s.judge imported b = e := by
  cases h with
  | blacklisted hListed => simp [judge, hListed]
  | obfuscated hListed hId hSuspect =>
    have hLooks := looksObfuscated_iff.mpr hSuspect
    simp [judge, Block.hasCommandId, hListed, hId, hLooks]
  | command hListed hId hSuspect =>
    have hLooks := mt looksObfuscated_iff.mp hSuspect
    simp [judge, Block.hasCommandId, hListed, hId, hLooks]
  | dependency hListed hId hImported => simp [judge, Block.hasCommandId, hListed, hId, hImported]
  | unreferenced hListed hId hImported => simp [judge, Block.hasCommandId, hListed, hId, hImported]

theorem judge_eq_iff {imported : List String} {b : Block} {e : Eligibility} :
    s.judge imported b = e ↔ Rule s b (b.name ∈ imported) e := by
  constructor
  · rintro rfl
    obtain ⟨e, hRule⟩ := exists_rule s b (b.name ∈ imported)
    rwa [judge_of_rule hRule]
  · exact judge_of_rule

/-- What a resolution makes of the block `b`. -/
structure Resolves (s : Selection) (resolved : List JudgedBlock) (b : Block) (judged : JudgedBlock) : Prop where
  /-- Only the references differ. -/
  block_eq : judged.block = { b with references := judged.imports }
  firstMentions : FirstMentions b.references b.nested judged.imports
  nodup : judged.imports.Nodup
  mem_imports_iff : ∀ name, name ∈ judged.imports ↔ name ∈ b.references ∧ name ∉ b.nested
  eligibility_eq_iff : ∀ e, judged.eligibility = e ↔ Rule s b (∃ other ∈ resolved, b.name ∈ other.imports) e

theorem resolves_pruned (s : Selection) (blocks : List Block) (b : Block) :
    Resolves s (s.resolve blocks).value b ⟨b.pruned, s.judge (importedNames blocks) b.pruned⟩ where
  block_eq := rfl
  firstMentions := firstMentions_pruned b
  nodup := nodup_eraseDups _
  mem_imports_iff := fun _ => mem_references_pruned_iff b
  eligibility_eq_iff := by
    intro e
    have hImported : b.name ∈ importedNames blocks ↔ ∃ other ∈ (s.resolve blocks).value, b.name ∈ other.imports := by
      rw [mem_importedNames_iff s]
      simp only [List.mem_iff_getElem?]
      constructor
      · rintro ⟨j, other, hOther, hName⟩
        exact ⟨other, ⟨j, hOther⟩, hName⟩
      · rintro ⟨other, ⟨j, hOther⟩, hName⟩
        exact ⟨j, other, hOther, hName⟩
    rw [← hImported]
    exact judge_eq_iff (b := b)

/-- A resolution judges every block at its place. Of a block only the references change, to the first mentions of names
    that are no levels of it; its verdict is the one that the rules give, by the imports of all blocks. A pattern that a
    user gives makes those names look obfuscated that the library finds by it. With the readers of this project the
    pattern matches a part of these names, and the default pattern stands for names of capital letters. -/
theorem resolution_exact :
    (∀ (s : Selection) (blocks : List Block), (s.resolve blocks).value.length = blocks.length ∧
      ∀ (i : Nat) (b : Block), blocks[i]? = some b → ∃ judged, (s.resolve blocks).value[i]? = some judged ∧
        Resolves s (s.resolve blocks).value b judged) ∧
    (∀ [Formats] pattern blacklist s, make pattern blacklist = .ok s → s.blacklist = blacklist ∧
      ∀ name, s.Suspects name ↔ pattern ≠ "" ∧ ∃ found, Formats.pattern pattern = .ok found ∧ found name = true) ∧
    (∀ pattern blacklist s, make pattern blacklist = .ok s → pattern ≠ "" →
      ∃ e, Pattern.read? pattern = some e ∧ s.Reads e) ∧
    (∀ s e, Reads s e → ∀ name, s.Suspects name ↔ e.MatchesPart name) ∧
    default.Reads capitals ∧ default.blacklist = [] ∧
    ∀ name, default.Suspects name ↔ name ≠ "" ∧ ∀ c ∈ name.toList, 'A' ≤ c ∧ c ≤ 'Z' := by
  refine ⟨fun s blocks => ⟨?_, fun i b hBlock => ?_⟩, ?_, ?_, fun s e hReads _ => suspects_iff_of_reads hReads,
    reads_default, rfl, fun _ => suspects_default_iff⟩
  · have hValue : (s.resolve blocks).value = s.judgeAll blocks := rfl
    rw [hValue, judgeAll, List.length_map, List.length_map]
  · refine ⟨_, ?_, resolves_pruned s blocks b⟩
    rw [getElem?_resolve, hBlock, Option.map_some]
  · exact fun pattern blacklist s h => ⟨blacklist_make h, fun _ => suspects_make_iff h⟩
  · exact fun pattern blacklist s h hSet => exists_reads_of_make h hSet

end Selection

end Unbundle

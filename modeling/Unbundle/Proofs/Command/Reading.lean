/-
  Unbundle.Proofs.Command.Reading — with what the first half of a run ends.

  A reading asks for files, reports, and may end the run. Which values it can end with does not depend on what was
  reported before (`Returns`). What the libraries make of settings, blacklists and patterns is left open.

  (1) `returns_bind`. The rules for readings made of others.

  (2) `returns_readAll`. In a tree, the first half ends with settings and a split if settings, glossary, schema and
  splitter can be had from it, and the schema splits (`Inputs`).

  (3) `Inputs.not_obstacle`, `exists_inputs`. It fails if and only if one of the obstacles stands in its way.
-/

import Unbundle.Command.Session
import Unbundle.Proofs.Glossary.Rows
import Unbundle.Proofs.Splitter

namespace Unbundle.Command

/-! ## (1) Values of readings -/

namespace Reading

variable {α β : Type} {x : Reading Id α} {p q : α → Prop}

/-- Whatever was reported before, a reading ends with the values that `p` is true of, and with no others. -/
def Returns (x : Reading Id α) (p : α → Prop) : Prop :=
  ∀ before a, (∃ after, (x.run.run before).run = (.ok a, after)) ↔ p a

theorem Returns.congr (h : x.Returns p) (hIff : ∀ a, p a ↔ q a) : x.Returns q := by
  intro before a
  rw [h before a, hIff]

theorem returns_bind {f : α → Reading Id β} {q : α → β → Prop} (h : x.Returns p)
    (hNext : ∀ a, p a → (f a).Returns (q a)) : (x >>= f).Returns fun b => ∃ a, p a ∧ q a b := by
  intro before b
  -- an end in front is an end of both
  have hBind : ((x >>= f).run.run before).run = match (x.run.run before).run with
      | (.ok a, mid) => ((f a).run.run mid).run
      | (.error report, mid) => (.error report, mid) := by
    change (match (x.run.run before).run with | (r, mid) => ((ExceptT.bindCont f r).run mid).run) = _
    rcases (x.run.run before).run with ⟨_ | a, mid⟩ <;> rfl
  rw [hBind]
  constructor
  · rintro ⟨after, hEnd⟩
    rcases hFirst : (x.run.run before).run with ⟨report | a, mid⟩
    · rw [hFirst] at hEnd
      cases hEnd
    · rw [hFirst] at hEnd
      have ha : p a := (h before a).mp ⟨mid, hFirst⟩
      exact ⟨a, ha, (hNext a ha mid b).mp ⟨after, hEnd⟩⟩
  · rintro ⟨a, ha, hb⟩
    obtain ⟨mid, hFirst⟩ := (h before a).mpr ha
    rw [hFirst]
    exact (hNext a ha mid b).mpr hb

theorem returns_pure (a : α) : (pure a : Reading Id α).Returns (a = ·) := by
  intro before b
  constructor
  · rintro ⟨after, h⟩
    cases h
    rfl
  · rintro rfl
    exact ⟨before, rfl⟩

/-- What is asked for is known at once. -/
theorem returns_ask {y : Id α} {f : α → Reading Id β} {q : β → Prop} (h : (f y.run).Returns q) :
    (liftM y >>= f).Returns q := h

theorem returns_throw (r : Report) : (throw r : Reading Id α).Returns fun _ => False := by
  intro before a
  constructor
  · rintro ⟨after, h⟩
    cases h
  · exact False.elim

/-- A reading that goes on under a condition only. -/
theorem returns_guard {c : Prop} [Decidable c] {r : Report} (h : x.Returns p) :
    (if c then x else throw r).Returns fun a => c ∧ p a := by
  by_cases hc : c
  · rw [if_pos hc]
    exact h.congr fun a => by simp [hc]
  · rw [if_neg hc]
    exact (returns_throw r).congr fun a => by simp [hc]

theorem returns_report (events : List Event) : (report events : Reading Id Unit).Returns fun _ => True := by
  intro before a
  exact ⟨fun _ => trivial, fun _ => ⟨before ++ events, rfl⟩⟩

theorem returns_ofLogged (y : Logged α) : (ofLogged y : Reading Id α).Returns (y.value = ·) := by
  intro before a
  constructor
  · rintro ⟨after, h⟩
    cases h
    rfl
  · rintro rfl
    exact ⟨before ++ y.events, rfl⟩

theorem returns_within (text : String) (e : Except Failure α) : (within text e : Reading Id α).Returns (e = .ok ·) := by
  cases e with
  | ok b => exact (returns_pure b).congr fun a => by simp
  | error failure => exact (returns_throw _).congr fun a => by simp

end Reading

open Reading

/-! ## (2) The first half of a run -/

section

variable {t : Tree} {a : Arguments} {clock path : String} {s : Settings}

/-- The text in a file of a tree. -/
def textAt (t : Tree) (path : String) : Except Fault String := (Files.ofTree t).readText path

/-- The file with the settings of a run, if there is one. -/
def settingsPath? (t : Tree) (a : Arguments) : Option String :=
  a.config?.or (if t.isFile settingsFile then some settingsFile else none)

theorem mapError_eq_ok_iff {ε ε' α : Type} {x : Except ε α} {f : ε → ε'} {a : α} :
    x.mapError f = .ok a ↔ x = .ok a := by
  cases x with
  | error e => simp [Except.mapError]
  | ok b => simp [Except.mapError]

theorem bind_eq_ok_iff {ε α β : Type} {x : Except ε α} {f : α → Except ε β} {b : β} :
    x.bind f = .ok b ↔ ∃ a, x = .ok a ∧ f a = .ok b := by
  cases x with
  | error e => simp [Except.bind]
  | ok a => simp [Except.bind]

/-- A text is in a file if the bytes of the file stand for it. -/
theorem textAt_eq_ok_iff {text : String} : textAt t path = .ok text ↔
    ∃ bytes, t.read path = .ok bytes ∧ Text.ofBytes? bytes = some text := by
  have hText : textAt t path =
      (t.read path).bind fun bytes => (Text.ofBytes? bytes).elim (.error .notText) .ok := by
    have hRead : (Files.ofTree t).read path = t.read path := rfl
    unfold textAt Files.readText
    rw [hRead]
    rcases t.read path with fault | bytes
    · rfl
    · dsimp only [Except.bind, bind]
      rcases Text.ofBytes? bytes with _ | text <;> rfl
  rw [hText, bind_eq_ok_iff]
  refine exists_congr fun bytes => and_congr_right fun _ => ?_
  rcases Text.ofBytes? bytes with _ | text'
  · simp
  · simp

/-- A file holds the rows of a glossary. -/
def HoldsGlossary (t : Tree) (path : String) (g : Glossary) : Prop :=
  ∃ bytes draft, t.read path = .ok bytes ∧ (Draft.empty.readBytes bytes).value = (draft, none) ∧ draft.finish.value = g

theorem HoldsGlossary.unique {g g' : Glossary} (h : HoldsGlossary t path g) (h' : HoldsGlossary t path g') :
    g = g' := by
  obtain ⟨bytes, draft, hBytes, hRows, rfl⟩ := h
  obtain ⟨bytes', draft', hBytes', hRows', rfl⟩ := h'
  obtain rfl := Except.ok.inj (hBytes.symm.trans hBytes')
  rw [(Prod.mk.inj (hRows.symm.trans hRows')).1]

/-- A glossary can be had from every file that holds a text. -/
theorem exists_holdsGlossary_iff : (∃ g, HoldsGlossary t path g) ↔ ∃ text, textAt t path = .ok text := by
  simp only [textAt_eq_ok_iff]
  constructor
  · rintro ⟨_, bytes, draft, hBytes, hRows, _⟩
    obtain ⟨text, hText⟩ := Draft.readBytes_eq_none_iff.mp (congrArg Prod.snd hRows)
    exact ⟨text, bytes, hBytes, hText⟩
  · rintro ⟨text, bytes, hBytes, hText⟩
    have hRows : (Draft.empty.readBytes bytes).value.2 = none := Draft.readBytes_eq_none_iff.mpr ⟨text, hText⟩
    exact ⟨_, bytes, _, hBytes, Prod.ext rfl hRows, rfl⟩

theorem returns_glossaryIn : (glossaryIn (Files.ofTree t) path).Returns (HoldsGlossary t path) := by
  have hEnd : ∀ (failure? : Option Failure) (u : Unit), (failure?.elim (.ok ()) fun failure =>
      .error (inFile path failure) : Except Failure Unit) = .ok u ↔ failure? = none := by
    rintro (_ | failure) u
    · exact ⟨fun _ => rfl, fun _ => rfl⟩
    · simp
  have hRead : ((Files.ofTree t).read path).run = t.read path := rfl
  refine returns_ask ((returns_bind (returns_within _ _) fun bytes _ =>
    returns_bind (returns_ofLogged _) fun result _ =>
    returns_bind (returns_within _ _) fun _ _ => returns_ofLogged _).congr fun g => ?_)
  simp only [hRead, mapError_eq_ok_iff, hEnd]
  constructor
  · rintro ⟨bytes, hBytes, ⟨draft, failure?⟩, hRows, _, rfl, hFinish⟩
    exact ⟨bytes, draft, hBytes, hRows, hFinish⟩
  · rintro ⟨bytes, draft, hBytes, hRows, hFinish⟩
    exact ⟨bytes, hBytes, (draft, none), hRows, (), rfl, hFinish⟩

theorem returns_schemaIn : (schemaIn (Files.ofTree t) path).Returns fun text => textAt t path = .ok text := by
  have hRead : ((Files.ofTree t).readText path).run = textAt t path := rfl
  refine returns_ask ?_
  rw [hRead]
  rcases textAt t path with fault | text
  · exact (returns_throw _).congr fun _ => by simp
  · exact (returns_pure text).congr fun _ => by simp

variable [Formats]

/-- The settings of a run are those of the file, or the default ones if there is no file, with what was asked for put in
    their place. -/
def Settles (t : Tree) (a : Arguments) (s : Settings) : Prop :=
  ∃ base, a.applyTo base = s ∧
    match settingsPath? t a with
    | none => base = .default
    | some path => ∃ text, textAt t path = .ok text ∧ Settings.ofText text = .ok base

/-- A splitter is the one that settings describe, with comments that hold the time. -/
def MakesSplitter (t : Tree) (clock : String) (s : Settings) (splitter : Splitter) : Prop :=
  ∃ plain, Splitter.ofSettings (textAt t) s = .ok plain ∧
    { plain with layout := { plain.layout with provenance := provenance clock } } = splitter

theorem returns_settingsIn : (settingsIn (Files.ofTree t) path).Returns fun s =>
    ∃ text, textAt t path = .ok text ∧ Settings.ofText text = .ok s := by
  refine returns_ask ((returns_within _ _).congr fun s => ?_)
  change ((textAt t path).mapError (.fileRead path)).bind Settings.ofText = .ok s ↔ _
  simp only [bind_eq_ok_iff, mapError_eq_ok_iff]

theorem returns_settingsFor : (settingsFor (Files.ofTree t) a).Returns (Settles t a) := by
  have hNamed : ∀ path, (a.applyTo <$> settingsIn (Files.ofTree t) path : Reading Id Settings).Returns fun s =>
      ∃ base, a.applyTo base = s ∧ ∃ text, textAt t path = .ok text ∧ Settings.ofText text = .ok base := by
    intro path
    refine (returns_bind returns_settingsIn fun base _ => returns_pure (a.applyTo base)).congr fun s => ?_
    exact exists_congr fun base => and_comm
  have hDefault : (report [.settingsMissing settingsFile] >>= fun _ => pure (a.applyTo .default) :
      Reading Id Settings).Returns fun s => ∃ base, a.applyTo base = s ∧ base = .default := by
    refine (returns_bind (returns_report _) fun _ _ => returns_pure _).congr fun s => ?_
    simp
  unfold settingsFor Settles settingsPath?
  rcases a.config? with _ | path
  · refine returns_ask ?_
    change (if t.isFile settingsFile = true then _ else _ : Reading Id Settings).Returns _
    by_cases hThere : t.isFile settingsFile = true
    · rw [if_pos hThere, if_pos hThere]
      exact hNamed settingsFile
    · rw [if_neg hThere, if_neg hThere]
      exact hDefault
  · exact hNamed path

/-- Of all files a splitter asks for the blacklist file alone. -/
theorem ofSettings_congr {readFile readFile' : String → Except Fault String}
    (h : ∀ path, s.blacklist.file? = some path → readFile path = readFile' path) :
    Splitter.ofSettings readFile s = Splitter.ofSettings readFile' s := by
  have hResolve : s.blacklist.resolve readFile = s.blacklist.resolve readFile' := by
    unfold BlacklistSettings.resolve
    split
    · rfl
    · rename_i path hFile
      rw [h path hFile]
  unfold Splitter.ofSettings
  rw [hResolve]

theorem returns_splitterFor : (splitterFor (Files.ofTree t) clock s).Returns (MakesSplitter t clock s) := by
  have hListed : ∀ listed : Except Fault String, (∀ path, s.blacklist.file? = some path → listed = textAt t path) →
      (within "Invalid configuration" (Splitter.ofSettings (fun _ => listed) s) >>= fun plain =>
        pure { plain with layout := { plain.layout with provenance := provenance clock } } :
          Reading Id Splitter).Returns (MakesSplitter t clock s) := by
    intro listed h
    rw [ofSettings_congr h]
    exact returns_bind (returns_within _ _) fun plain _ => returns_pure _
  unfold splitterFor
  rcases hFile : s.blacklist.file? with _ | path
  · refine hListed _ fun path hPath => ?_
    rw [hFile] at hPath
    cases hPath
  · refine hListed (textAt t path) fun path' hPath => ?_
    rw [hFile] at hPath
    cases hPath
    rfl

/-- All that a split needs can be had from a tree. -/
structure Inputs (t : Tree) (clock : String) (a : Arguments) (s : Settings) (g : Glossary) (schema : String)
    (splitter : Splitter) : Prop where
  settings : Settles t a s
  isFile : t.isFile s.inputFile = true
  glossary : HoldsGlossary t s.mappingFile g
  schema : textAt t s.inputFile = .ok schema
  splitter : MakesSplitter t clock s splitter

/-- The first half of a run ends with a split if all that it needs can be had, and the schema splits. -/
theorem returns_readAll : (readAll (Files.ofTree t) clock a).Returns fun (s, r) =>
    ∃ g schema splitter, Inputs t clock a s g schema splitter ∧ (splitter.run g schema).value = .ok r := by
  refine (returns_bind returns_settingsFor fun s _ => returns_ask (returns_guard (
    returns_bind returns_glossaryIn fun g _ =>
    returns_bind returns_schemaIn fun schema _ => returns_bind returns_splitterFor fun splitter _ =>
    returns_bind (returns_ofLogged _) fun result _ => returns_bind (returns_within _ _) fun r _ =>
    returns_pure (s, r)))).congr fun (s, r) => ?_
  constructor
  · rintro ⟨s, hSettings, hFile, g, hGlossary, schema, hSchema, splitter, hSplitter, result, hRun, r, rfl, hPair⟩
    cases hPair
    exact ⟨g, schema, splitter, ⟨hSettings, hFile, hGlossary, hSchema, hSplitter⟩, hRun⟩
  · rintro ⟨g, schema, splitter, h, hRun⟩
    exact ⟨s, h.settings, h.isFile, g, h.glossary, schema, h.schema, splitter, h.splitter, _, hRun, r, rfl, rfl⟩

/-- The first half of a run in a tree, and what it reports. -/
def reading (around : Surroundings) (a : Arguments) (t : Tree) : Except Report (Settings × SplitResult) × List Event :=
  ((readAll (Files.ofTree t) around.clock a).run.run []).run

theorem exists_reading_iff {around : Surroundings} {r : SplitResult} :
    (∃ events, reading around a t = (.ok (s, r), events)) ↔
      ∃ g schema splitter, Inputs t around.clock a s g schema splitter ∧ (splitter.run g schema).value = .ok r :=
  returns_readAll [] (s, r)

/-! ## (3) Obstacles -/

theorem Settles.unique {s' : Settings} (h : Settles t a s) (h' : Settles t a s') : s = s' := by
  unfold Settles at h h'
  rcases hPath : settingsPath? t a with _ | path
  · rw [hPath] at h h'
    obtain ⟨_, rfl, rfl⟩ := h
    obtain ⟨_, rfl, rfl⟩ := h'
    rfl
  · rw [hPath] at h h'
    obtain ⟨base, rfl, text, hText, hBase⟩ := h
    obtain ⟨base', rfl, text', hText', hBase'⟩ := h'
    obtain rfl := Except.ok.inj (hText.symm.trans hText')
    obtain rfl := Except.ok.inj (hBase.symm.trans hBase')
    rfl

/-- What can stand in the way of a split. -/
inductive Obstacle (t : Tree) (a : Arguments) : Prop where
  /-- The file with the settings cannot be read, or holds none. -/
  | settings (path : String) (hPath : settingsPath? t a = some path)
      (h : ∀ text base, textAt t path = .ok text → Settings.ofText text ≠ .ok base)
  /-- There is no schema. -/
  | input (s : Settings) (hSettings : Settles t a s) (h : t.isFile s.inputFile = false)
  /-- The glossary cannot be read as a text. -/
  | mapping (s : Settings) (hSettings : Settles t a s) (h : ∀ text, textAt t s.mappingFile ≠ .ok text)
  /-- The schema cannot be read as a text. -/
  | schema (s : Settings) (hSettings : Settles t a s) (h : ∀ text, textAt t s.inputFile ≠ .ok text)
  /-- The name pattern is not a regular expression. -/
  | pattern (s : Settings) (hSettings : Settles t a s) (hSet : s.parser.obfuscatedNamePattern ≠ "")
      (h : ∀ found, Formats.pattern s.parser.obfuscatedNamePattern ≠ .ok found)
  /-- The blacklist file cannot be read, or holds none. -/
  | blacklist (s : Settings) (hSettings : Settles t a s) (path : String) (hPath : s.blacklist.file? = some path)
      (h : ∀ text names, textAt t path = .ok text → blacklistOfText text ≠ .ok names)
  /-- With clear names, more levels are closed than opened up to some line of the schema. -/
  | unbalanced (s : Settings) (hSettings : Settles t a s) (g : Glossary) (hGlossary : HoldsGlossary t s.mappingFile g)
      (text : String) (hText : textAt t s.inputFile = .ok text) (n : Nat)
      (h : Line.Overclosed (.protobuf s.parser.suppressedTypes)
        (((Text.lines text).map fun line => (Clearing.line g.keyTree s.annotateReplacements line).text).take n))

theorem exists_settles_iff : (∃ s, Settles t a s) ↔
    ∀ path, settingsPath? t a = some path →
      ∃ text base, textAt t path = .ok text ∧ Settings.ofText text = .ok base := by
  unfold Settles
  rcases settingsPath? t a with _ | path
  · simp
  · constructor
    · rintro ⟨_, base, _, text, hText, hBase⟩ _ hPath
      cases hPath
      exact ⟨text, base, hText, hBase⟩
    · intro h
      obtain ⟨text, base, hText, hBase⟩ := h path rfl
      exact ⟨_, base, rfl, text, hText, hBase⟩

theorem exists_make_iff {pattern : String} {blacklist : List String} :
    (∃ selection, Selection.make pattern blacklist = .ok selection) ↔
      (pattern ≠ "" → ∃ found, Formats.pattern pattern = .ok found) := by
  constructor
  · rintro ⟨_, hMade⟩ hSet
    obtain ⟨hEmpty, _⟩ | ⟨_, found, hFound, _⟩ := Selection.make_eq_ok_iff.mp hMade
    · exact absurd hEmpty hSet
    · exact ⟨found, hFound⟩
  · intro h
    by_cases hEmpty : pattern = ""
    · exact ⟨_, Selection.make_eq_ok_iff.mpr (.inl ⟨hEmpty, rfl⟩)⟩
    · obtain ⟨found, hFound⟩ := h hEmpty
      exact ⟨_, Selection.make_eq_ok_iff.mpr (.inr ⟨hEmpty, found, hFound, rfl⟩)⟩

theorem exists_resolve_iff {readFile : String → Except Fault String} {b : BlacklistSettings} :
    (∃ names, b.resolve readFile = .ok names) ↔
      ∀ path, b.file? = some path → ∃ text names, readFile path = .ok text ∧ blacklistOfText text = .ok names := by
  unfold BlacklistSettings.resolve
  rcases b.file? with _ | path
  · simp
  · rcases hRead : readFile path with fault | text
    · simp [hRead]
    · rcases hNames : blacklistOfText text with failure | names
      · simp [hRead, hNames, Except.map]
      · simp [hRead, hNames, Except.map]

theorem exists_makesSplitter_iff : (∃ splitter, MakesSplitter t clock s splitter) ↔
    (∃ selection, Selection.make s.parser.obfuscatedNamePattern [] = .ok selection) ∧
      ∃ names, s.blacklist.resolve (textAt t) = .ok names := by
  constructor
  · rintro ⟨_, plain, hPlain, _⟩
    obtain ⟨selection, names, hSelection, hNames, _⟩ := Splitter.ofSettings_eq_ok_iff.mp hPlain
    exact ⟨⟨selection, hSelection⟩, names, hNames⟩
  · rintro ⟨⟨selection, hSelection⟩, names, hNames⟩
    exact ⟨_, _, Splitter.ofSettings_eq_ok_iff.mpr ⟨selection, names, hSelection, hNames, rfl⟩, rfl⟩

/-- What the settings leave no choice about. -/
theorem MakesSplitter.fields {splitter : Splitter} (h : MakesSplitter t clock s splitter) :
    splitter.vocabulary = .protobuf s.parser.suppressedTypes ∧ splitter.annotate = s.annotateReplacements ∧
      splitter.layout.provenance = provenance clock ∧ splitter.opcodePackage?.isSome = s.opcodes.enabled := by
  obtain ⟨plain, hPlain, rfl⟩ := h
  obtain ⟨selection, names, _, _, rfl⟩ := Splitter.ofSettings_eq_ok_iff.mp hPlain
  refine ⟨rfl, rfl, rfl, ?_⟩
  rcases s.opcodes.enabled <;> rfl

/-- Where all that a split needs can be had and the schema splits, there is no obstacle. -/
theorem Inputs.not_obstacle {g : Glossary} {schema : String} {splitter : Splitter} {r : SplitResult}
    (h : Inputs t clock a s g schema splitter) (hRun : (splitter.run g schema).value = .ok r) : ¬ Obstacle t a := by
  -- an obstacle speaks of the settings, and there is one record of them only: it is about what was read here
  intro hObstacle
  cases hObstacle with
  | settings path hPath hNone =>
    obtain ⟨text, base, hText, hBase⟩ := exists_settles_iff.mp ⟨s, h.settings⟩ path hPath
    exact hNone text base hText hBase
  | input s' hSettings hNone =>
    obtain rfl := h.settings.unique hSettings
    rw [h.isFile] at hNone
    cases hNone
  | mapping s' hSettings hNone =>
    obtain rfl := h.settings.unique hSettings
    obtain ⟨text, hText⟩ := exists_holdsGlossary_iff.mp ⟨g, h.glossary⟩
    exact hNone text hText
  | schema s' hSettings hNone =>
    obtain rfl := h.settings.unique hSettings
    exact hNone schema h.schema
  | pattern s' hSettings hSet hNone =>
    obtain rfl := h.settings.unique hSettings
    obtain ⟨found, hFound⟩ := exists_make_iff.mp (exists_makesSplitter_iff.mp ⟨splitter, h.splitter⟩).1 hSet
    exact hNone found hFound
  | blacklist s' hSettings path hPath hNone =>
    obtain rfl := h.settings.unique hSettings
    have hNames := (exists_makesSplitter_iff.mp ⟨splitter, h.splitter⟩).2
    obtain ⟨text, names, hText, hRead⟩ := exists_resolve_iff.mp hNames path hPath
    exact hNone text names hText hRead
  | unbalanced s' hSettings g' hGlossary text hText n hOver =>
    obtain rfl := h.settings.unique hSettings
    obtain rfl := h.glossary.unique hGlossary
    obtain rfl := Except.ok.inj (h.schema.symm.trans hText)
    obtain ⟨hVocabulary, hAnnotate, _⟩ := h.splitter.fields
    rw [← hVocabulary, ← hAnnotate] at hOver
    exact Splitter.exists_run_iff.mp ⟨r, hRun⟩ n hOver

/-- Without an obstacle, each step of the first half has what it needs. -/
theorem exists_inputs (clock : String) (hFree : ¬ Obstacle t a) : ∃ s g schema splitter r,
    Inputs t clock a s g schema splitter ∧ (splitter.run g schema).value = .ok r := by
  -- in the order of the steps, for a later obstacle takes what the earlier steps read
  obtain ⟨s, hSettings⟩ : ∃ s, Settles t a s := by
    refine exists_settles_iff.mpr fun path hPath => ?_
    by_contra hNone
    exact hFree (.settings path hPath fun text base hText hBase => hNone ⟨text, base, hText, hBase⟩)
  have hFile : t.isFile s.inputFile = true := by
    by_contra hNone
    exact hFree (.input s hSettings (by simpa using hNone))
  obtain ⟨g, hGlossary⟩ : ∃ g, HoldsGlossary t s.mappingFile g := by
    refine exists_holdsGlossary_iff.mpr ?_
    by_contra hNone
    exact hFree (.mapping s hSettings fun text hText => hNone ⟨text, hText⟩)
  obtain ⟨schema, hSchema⟩ : ∃ schema, textAt t s.inputFile = .ok schema := by
    by_contra hNone
    exact hFree (.schema s hSettings fun text hText => hNone ⟨text, hText⟩)
  obtain ⟨splitter, hSplitter⟩ : ∃ splitter, MakesSplitter t clock s splitter := by
    refine exists_makesSplitter_iff.mpr ⟨exists_make_iff.mpr fun hSet => ?_,
      exists_resolve_iff.mpr fun path hPath => ?_⟩
    · by_contra hNone
      exact hFree (.pattern s hSettings hSet fun found hFound => hNone ⟨found, hFound⟩)
    · by_contra hNone
      exact hFree (.blacklist s hSettings path hPath fun text names hText hNames =>
        hNone ⟨text, names, hText, hNames⟩)
  obtain ⟨r, hRun⟩ : ∃ r, (splitter.run g schema).value = .ok r := by
    obtain ⟨hVocabulary, hAnnotate, _⟩ := hSplitter.fields
    refine Splitter.exists_run_iff.mpr fun n hOver => ?_
    rw [hVocabulary, hAnnotate] at hOver
    exact hFree (.unbalanced s hSettings g hGlossary schema hSchema n hOver)
  exact ⟨s, g, schema, splitter, r, ⟨hSettings, hFile, hGlossary, hSchema, hSplitter⟩, hRun⟩

end

end Unbundle.Command

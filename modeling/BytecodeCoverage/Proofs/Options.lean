import BytecodeCoverage.Options
import BytecodeCoverage.Proofs.Text.Blanks
import Mathlib.Order.Fin.Basic

/-!
# What an option text says

The entries of an option text stand between its commas.  An entry that is not blank is a key and
one of the spellings of a value for this key, with an equals sign between them and blanks wherever
they do not matter.  A text is read just if all of its entries are of this form, and then each key
has the value of its last entry, or the one that it has from the start.

**Main definitions.**
* `Setting.SpelledBy`: what an entry looks like.
* `Options.Listed`: the settings that the entries of a text spell, one by one.
* `Options.Latest`: the value of a key after some entries.
* `Options.Reordered`: another order of entries in which those of one key keep theirs.

**Results.**
* `Setting.ofEntry_trim_eq_ok`: the entries that are understood.
* `Options.parse_eq_ok`: the texts that are understood, and what they say.
* `Options.parse_latest`: every entry counts, and the last one of each key wins.
-/

namespace BytecodeCoverage

/-- What can be set. -/
inductive OptionKey
  | branches
  | instructions
  | tracking
  | filters
  | synthetic
  | hits
  | strategy
  deriving DecidableEq

/-- How a key is written. -/
def OptionKey.name : OptionKey → String
  | .branches => "branches"
  | .instructions => "instructions"
  | .tracking => "tracking"
  | .filters => "filters"
  | .synthetic => "synthetic"
  | .hits => "hits"
  | .strategy => "strategy"

/-- What a key is set to. -/
def Options.setting (options : Options) : OptionKey → Setting
  | .branches => .branches options.branches
  | .instructions => .instructions options.instructions
  | .tracking => .tracking options.tracking
  | .filters => .filters options.filters
  | .synthetic => .synthetic options.synthetic
  | .hits => .hits options.hits
  | .strategy => .strategy options.strategy

theorem HitMode.ofName?_eq_some {value : String} {mode : HitMode} :
    ofName? value = some mode ↔ value = mode.name := by
  cases mode <;> unfold ofName? <;> split <;> simp_all [name]

theorem Strategy.ofName?_eq_some {value : String} {chosen : Strategy} :
    ofName? value = some chosen ↔ value = chosen.name := by
  cases chosen <;> unfold ofName? <;> split <;> simp_all [name]

namespace Setting

/-- What is set. -/
def key : Setting → OptionKey
  | .branches _ => .branches
  | .instructions _ => .instructions
  | .tracking _ => .tracking
  | .filters _ => .filters
  | .synthetic _ => .synthetic
  | .hits _ => .hits
  | .strategy _ => .strategy

/-- How a truth value may be written. -/
def truthSpellings : Bool → List String
  | true => ["true", "yes", "on", "1"]
  | false => ["false", "no", "off", "0"]

/-- How the value of a setting may be written. -/
def spellings : Setting → List String
  | .branches on | .instructions on | .tracking on | .filters on | .synthetic on =>
      truthSpellings on
  | .hits mode => [mode.name]
  | .strategy chosen => [chosen.name]

/-- An entry is the key and a spelling of the value, each with blanks around it, and an equals sign
between them. -/
def SpelledBy (s : Setting) (entry : List Char) : Prop :=
  ∃ left right value, Text.Padded s.key.name.toList left ∧ value ∈ s.spellings ∧
    Text.Padded value.toList right ∧ entry = left ++ '=' :: right

/-! ## One entry -/

theorem bool_eq_ok {key value : String} {on : Bool} :
    bool key value = .ok on ↔ value ∈ truthSpellings on := by
  cases on <;> unfold bool <;> split <;> simp_all [truthSpellings]

theorem map_bool_eq_ok {key value : String} {f : Bool → Setting} {s : Setting} :
    (bool key value).map f = .ok s ↔ ∃ on, value ∈ truthSpellings on ∧ f on = s := by
  have hbool (on : Bool) : value ∈ truthSpellings on ↔ bool key value = .ok on := bool_eq_ok.symm
  simp only [hbool]
  cases bool key value <;> simp [Except.map]

/-- A pair is understood just if it is a key with a spelling of a value for it. -/
theorem ofPair_eq_ok {name value : String} {s : Setting} :
    ofPair name value = .ok s ↔ name = s.key.name ∧ value ∈ s.spellings := by
  unfold ofPair
  split
  -- Two of the keys take names as their values, and the other five take truth values.
  case h_6 =>
    simp only [spellings]
    cases s <;> simp only [key, OptionKey.name, List.mem_singleton, ← HitMode.ofName?_eq_some] <;>
      cases HitMode.ofName? value <;> simp
  case h_7 =>
    simp only [spellings]
    cases s <;> simp only [key, OptionKey.name, List.mem_singleton, ← Strategy.ofName?_eq_some] <;>
      cases Strategy.ofName? value <;> simp
  all_goals cases s <;> simp_all [key, OptionKey.name, spellings, map_bool_eq_ok]

/-- A word has characters, none of which is blank or an equals sign. -/
def Word (cs : List Char) : Prop :=
  cs ≠ [] ∧ ∀ c ∈ cs, Text.isBlank c = false ∧ c ≠ '='

theorem word_of_all {cs : List Char} (hne : cs ≠ [])
    (h : (cs.all fun c => !Text.isBlank c && c != '=') = true) : Word cs :=
  ⟨hne, fun c hc => by simpa using List.all_eq_true.1 h c hc⟩

theorem word_name (k : OptionKey) : Word k.name.toList := by
  cases k <;> exact word_of_all (by decide) (by decide)

theorem word_of_mem_truthSpellings {on : Bool} {value : String} (h : value ∈ truthSpellings on) :
    Word value.toList := by
  cases on <;> simp only [truthSpellings, List.mem_cons, List.not_mem_nil, or_false] at h <;>
    rcases h with rfl | rfl | rfl | rfl <;> exact word_of_all (by decide) (by decide)

theorem word_of_mem_spellings {s : Setting} {value : String} (h : value ∈ s.spellings) :
    Word value.toList := by
  cases s with
  | hits mode =>
      obtain rfl := List.mem_singleton.1 h
      cases mode <;> exact word_of_all (by decide) (by decide)
  | strategy chosen =>
      obtain rfl := List.mem_singleton.1 h
      cases chosen <;> exact word_of_all (by decide) (by decide)
  | _ => exact word_of_mem_truthSpellings h

namespace Word

variable {word : List Char}

theorem first (h : Word word) (rest : List Char) :
    ∀ c ∈ (word ++ rest).head?, Text.isBlank c = false := by
  intro c hc
  rw [List.head?_append_of_ne_nil _ h.1] at hc
  exact (h.2 c (List.mem_of_head? hc)).1

theorem last (h : Word word) (front : List Char) :
    ∀ c ∈ (front ++ word).getLast?, Text.isBlank c = false := by
  intro c hc
  rw [List.getLast?_append_of_ne_nil _ h.1] at hc
  exact (h.2 c (List.mem_of_getLast? hc)).1

theorem trim_eq (h : Word word) {padded : List Char} (hpadded : Text.Padded word padded) :
    Text.trim padded = word :=
  hpadded.trim_eq (by simpa using h.first []) (by simpa using h.last [])

end Word

/-- What is left of an entry without the blanks around it is cut at the equals sign that follows the
key. -/
theorem cutAt?_trim_of_spelledBy {s : Setting} {entry : List Char} (h : s.SpelledBy entry) :
    ∃ name value, Text.cutAt? '=' (Text.trim entry) = some (name, value) ∧
      Text.trim name = s.key.name.toList ∧ ∃ text ∈ s.spellings, Text.trim value = text.toList := by
  obtain ⟨_, _, text, ⟨before, b, hbefore, hb, rfl⟩, htext, ⟨c, after, hc, hafter, rfl⟩, rfl⟩ := h
  have hname := word_name s.key
  have hvalue := word_of_mem_spellings htext
  have htrim : Text.trim (before ++ s.key.name.toList ++ b ++ '=' :: (c ++ text.toList ++ after)) =
      (s.key.name.toList ++ b) ++ '=' :: (c ++ text.toList) := by
    refine Text.Padded.trim_eq ⟨before, after, hbefore, hafter, by simp⟩ ?_ ?_
    · rw [List.append_assoc]
      exact hname.first _
    · rw [← List.cons_append, ← List.append_assoc]
      exact hvalue.last _
  have hequals : '=' ∉ s.key.name.toList ++ b := by
    rw [List.mem_append, not_or]
    exact ⟨fun hmem => (hname.2 _ hmem).2 rfl, hb.notMem rfl⟩
  refine ⟨_, _, htrim ▸ Text.cutAt?_eq_some_iff.2 ⟨rfl, hequals⟩, ?_, text, htext, ?_⟩
  · exact hname.trim_eq ⟨[], b, nofun, hb, rfl⟩
  · exact hvalue.trim_eq ⟨c, [], hc, nofun, by simp⟩

/-- An entry is understood as the setting that it spells. -/
theorem ofEntry_trim_eq_ok {s : Setting} {entry : List Char} :
    ofEntry (Text.trim entry) = .ok s ↔ s.SpelledBy entry := by
  constructor
  · intro h
    unfold ofEntry at h
    split at h
    · rename_i name value hcut
      obtain ⟨hname, hvalue⟩ := ofPair_eq_ok.1 h
      obtain ⟨hentry, -⟩ := Text.cutAt?_eq_some_iff.1 hcut
      obtain ⟨before, after, hbefore, hafter, hpadded⟩ := Text.padded_trim entry
      rw [hentry] at hpadded
      refine ⟨before ++ name, value ++ after, _, ?_, hvalue, ?_, by simpa using hpadded⟩
      · rw [← hname, String.toList_ofList]
        exact (Text.padded_trim name).after_blank hbefore
      · rw [String.toList_ofList]
        exact (Text.padded_trim value).before_blank hafter
    · cases h
  · intro h
    obtain ⟨name, value, hcut, hname, text, htext, hvalue⟩ := cutAt?_trim_of_spelledBy h
    rw [ofEntry, hcut]
    exact ofPair_eq_ok.2
      ⟨by rw [hname, String.ofList_toList], by rwa [hvalue, String.ofList_toList]⟩

theorem SpelledBy.eq {s t : Setting} {entry : List Char} (hs : s.SpelledBy entry)
    (ht : t.SpelledBy entry) : s = t :=
  Except.ok.inj ((ofEntry_trim_eq_ok.2 hs).symm.trans (ofEntry_trim_eq_ok.2 ht))

theorem SpelledBy.not_blank {s : Setting} {entry : List Char} (h : s.SpelledBy entry) :
    ¬Text.Blank entry := by
  obtain ⟨left, right, -, -, -, -, rfl⟩ := h
  intro hblank
  have hequals := hblank '=' (List.mem_append_right _ List.mem_cons_self)
  cases hequals

/-- A setting takes effect for its own key and for no other. -/
theorem setting_apply (options : Options) (s : Setting) (k : OptionKey) :
    (apply options s).setting k = if s.key = k then s else options.setting k := by
  cases s <;> cases k <;> rfl

end Setting

namespace Options

open Setting

/-- Options are what the keys are set to. -/
theorem ext_setting {options other : Options} (h : ∀ k, options.setting k = other.setting k) :
    options = other := by
  obtain ⟨⟩ := options
  obtain ⟨⟩ := other
  have hbranches := h .branches
  have hinstructions := h .instructions
  have htracking := h .tracking
  have hfilters := h .filters
  have hsynthetic := h .synthetic
  have hhits := h .hits
  have hstrategy := h .strategy
  simp_all [setting]

/-! ## All entries -/

/-- The entries of a text, those that are blank among them: what stands between the commas. -/
def pieces (text : String) : List (List Char) :=
  text.toList.splitOn ','

/-- The settings that entries spell, without the blank ones. -/
inductive Listed : List (List Char) → List Setting → Prop
  | nil : Listed [] []
  | blank {piece : List Char} {rest : List (List Char)} {settings : List Setting} :
      Text.Blank piece → Listed rest settings → Listed (piece :: rest) settings
  | entry {piece : List Char} {s : Setting} {rest : List (List Char)} {settings : List Setting} :
      s.SpelledBy piece → Listed rest settings → Listed (piece :: rest) (s :: settings)

theorem mapM_cons_eq_ok {ε α β : Type} {f : α → Except ε β} {x : α} {xs : List α} {ys : List β} :
    (x :: xs).mapM f = .ok ys ↔ ∃ y rest, f x = .ok y ∧ xs.mapM f = .ok rest ∧ ys = y :: rest := by
  rw [List.mapM_cons]
  cases f x <;> cases xs.mapM f <;> simp [bind, Except.bind, pure, Except.pure, eq_comm]

theorem mapM_ofEntry_eq_ok {texts : List (List Char)} {settings : List Setting} :
    ((texts.map Text.trim).filter fun entry => !entry.isEmpty).mapM ofEntry = .ok settings ↔
      Listed texts settings := by
  induction texts generalizing settings with
  | nil =>
      constructor
      · rintro ⟨⟩
        exact .nil
      · rintro ⟨⟩
        rfl
  | cons piece rest ih =>
      by_cases hpiece : Text.Blank piece
      · have hempty := Text.trim_eq_nil_iff.2 hpiece
        rw [List.map_cons, List.filter_cons_of_neg (by simp [hempty]), ih]
        constructor
        · exact .blank hpiece
        · intro h
          cases h with
          | blank _ hrest => exact hrest
          | entry hspelled _ => exact absurd hpiece hspelled.not_blank
      · have hempty := mt Text.trim_eq_nil_iff.1 hpiece
        rw [List.map_cons, List.filter_cons_of_pos (by simp [hempty]), mapM_cons_eq_ok]
        constructor
        · rintro ⟨s, others, hentry, hothers, rfl⟩
          exact .entry (ofEntry_trim_eq_ok.1 hentry) (ih.1 hothers)
        · intro h
          cases h with
          | blank hblank _ => exact absurd hblank hpiece
          | entry hspelled hrest =>
              exact ⟨_, _, ofEntry_trim_eq_ok.2 hspelled, ih.2 hrest, rfl⟩

/-- A text is understood just if its entries spell settings, which take effect one after the
other. -/
theorem parse_eq_ok_listed {text : String} {options : Options} :
    parse text = .ok options ↔
      ∃ settings, Listed (pieces text) settings ∧ settings.foldl apply {} = options := by
  simp only [← mapM_ofEntry_eq_ok, pieces, ← Text.splitAt_eq_splitOn]
  rw [parse, entries]
  cases List.mapM ofEntry _ <;> simp [Except.map]

theorem exists_listed_iff {texts : List (List Char)} :
    (∃ settings, Listed texts settings) ↔
      ∀ piece ∈ texts, Text.Blank piece ∨ ∃ s : Setting, s.SpelledBy piece := by
  constructor
  · rintro ⟨settings, h⟩
    induction h with
    | nil => exact nofun
    | blank hblank _ ih => exact List.forall_mem_cons.2 ⟨.inl hblank, ih⟩
    | entry hspelled _ ih => exact List.forall_mem_cons.2 ⟨.inr ⟨_, hspelled⟩, ih⟩
  · intro h
    induction texts with
    | nil => exact ⟨[], .nil⟩
    | cons piece rest ih =>
        rw [List.forall_mem_cons] at h
        obtain ⟨settings, hrest⟩ := ih h.2
        rcases h.1 with hblank | ⟨s, hspelled⟩
        · exact ⟨settings, .blank hblank hrest⟩
        · exact ⟨s :: settings, .entry hspelled hrest⟩

/-! ## The last entry of a key -/

/-- An entry of a key. -/
def Sets (k : OptionKey) (piece : List Char) : Prop :=
  ∃ s : Setting, s.key = k ∧ s.SpelledBy piece

/-- The last entry of a key spells this setting. -/
def Last (texts : List (List Char)) (k : OptionKey) (s : Setting) : Prop :=
  ∃ i piece, texts[i]? = some piece ∧ s.key = k ∧ s.SpelledBy piece ∧
    ∀ (j : Nat) other, i < j → texts[j]? = some other → ¬Sets k other

/-- The value of a key: what its last entry spells, or what it is set to from the start if there
is none. -/
def Latest (start : Options) (texts : List (List Char)) (k : OptionKey) (s : Setting) : Prop :=
  Last texts k s ∨ (∀ piece ∈ texts, ¬Sets k piece) ∧ s = start.setting k

section Latest

variable {start : Options} {texts others : List (List Char)} {piece : List Char} {k : OptionKey}
  {s t : Setting}

theorem Last.exists_sets (h : Last texts k s) : ∃ piece ∈ texts, Sets k piece := by
  obtain ⟨i, piece, hpiece, hkey, hspelled, -⟩ := h
  exact ⟨piece, List.mem_of_getElem? hpiece, s, hkey, hspelled⟩

theorem Last.eq (hs : Last texts k s) (ht : Last texts k t) : s = t := by
  obtain ⟨i, piece, hpiece, hkey, hspelled, hafter⟩ := hs
  obtain ⟨j, other, hother, hkey', hspelled', hafter'⟩ := ht
  rcases Nat.lt_trichotomy i j with hlt | rfl | hlt
  · exact absurd ⟨t, hkey', hspelled'⟩ (hafter j other hlt hother)
  · obtain rfl := Option.some.inj (hpiece.symm.trans hother)
    exact hspelled.eq hspelled'
  · exact absurd ⟨s, hkey, hspelled⟩ (hafter' i piece hlt hpiece)

theorem Latest.eq (hs : Latest start texts k s) (ht : Latest start texts k t) : s = t := by
  rcases hs with hs | ⟨hnone, rfl⟩ <;> rcases ht with ht | ⟨hnone', rfl⟩
  · exact hs.eq ht
  · obtain ⟨piece, hmem, hsets⟩ := hs.exists_sets
    exact absurd hsets (hnone' piece hmem)
  · obtain ⟨piece, hmem, hsets⟩ := ht.exists_sets
    exact absurd hsets (hnone piece hmem)
  · rfl

/-- What comes before the last entry of a key makes no difference. -/
theorem Last.cons (h : Last texts k s) (piece : List Char) : Last (piece :: texts) k s := by
  obtain ⟨i, found, hfound, hkey, hspelled, hafter⟩ := h
  refine ⟨i + 1, found, hfound, hkey, hspelled, fun j other hlt hother => ?_⟩
  obtain ⟨j, rfl⟩ := Nat.exists_eq_succ_of_ne_zero (Nat.ne_zero_of_lt hlt)
  exact hafter j other (Nat.lt_of_succ_lt_succ hlt) hother

theorem Last.head (hspelled : s.SpelledBy piece) (hnone : ∀ other ∈ texts, ¬Sets s.key other) :
    Last (piece :: texts) s.key s := by
  refine ⟨0, piece, rfl, rfl, hspelled, fun j other hlt hother => ?_⟩
  obtain ⟨j, rfl⟩ := Nat.exists_eq_succ_of_ne_zero (Nat.ne_zero_of_lt hlt)
  exact hnone other (List.mem_of_getElem? hother)

theorem Latest.cons_blank (h : Latest start texts k s) (hblank : Text.Blank piece) :
    Latest start (piece :: texts) k s := by
  refine h.imp (·.cons piece) fun hnone => ⟨List.forall_mem_cons.2 ⟨?_, hnone.1⟩, hnone.2⟩
  rintro ⟨_, -, hspelled⟩
  exact hspelled.not_blank hblank

/-- An entry is what its key is set to from the start on, as far as the others are concerned. -/
theorem Latest.cons_entry (h : Latest (apply start t) texts k s) (hspelled : t.SpelledBy piece) :
    Latest start (piece :: texts) k s := by
  rcases h with hlast | ⟨hnone, rfl⟩
  · exact .inl (hlast.cons piece)
  · rw [setting_apply]
    split
    · rename_i hkey
      subst hkey
      exact .inl (.head hspelled hnone)
    · rename_i hkey
      refine .inr ⟨List.forall_mem_cons.2 ⟨?_, hnone⟩, rfl⟩
      rintro ⟨other, hother, hspelled'⟩
      exact hkey (hspelled'.eq hspelled ▸ hother)

/-- The last entry of each key wins. -/
theorem Listed.latest {settings : List Setting} (h : Listed texts settings) (start : Options)
    (k : OptionKey) : Latest start texts k ((settings.foldl apply start).setting k) := by
  -- For the entries after it, an entry changes what the keys are set to from the start.
  induction h generalizing start with
  | nil => exact .inr ⟨nofun, rfl⟩
  | blank hblank _ ih => exact (ih start).cons_blank hblank
  | entry hspelled _ ih => exact (ih _).cons_entry hspelled

/-! ## Another order -/

/-- The same entries in another order, in which entries of one key follow each other as before. -/
def Reordered (texts others : List (List Char)) : Prop :=
  ∃ place : Fin texts.length ≃ Fin others.length,
    (∀ i, others.get (place i) = texts.get i) ∧
      ∀ i j k, Sets k (texts.get i) → Sets k (texts.get j) → i < j → place i < place j

theorem Reordered.symm (h : Reordered texts others) : Reordered others texts := by
  obtain ⟨place, hsame, horder⟩ := h
  have hback (i : Fin others.length) : texts.get (place.symm i) = others.get i := by
    rw [← hsame, Equiv.apply_symm_apply]
  refine ⟨place.symm, hback, fun i j k hi hj hlt => ?_⟩
  rw [← hback] at hi hj
  rcases lt_trichotomy (place.symm i) (place.symm j) with hplaces | hplaces | hplaces
  · exact hplaces
  · exact absurd (place.symm.injective hplaces) hlt.ne
  · have hback := horder _ _ k hj hi hplaces
    rw [Equiv.apply_symm_apply, Equiv.apply_symm_apply] at hback
    exact absurd hback hlt.asymm

theorem Reordered.mem (h : Reordered texts others) (hmem : piece ∈ texts) : piece ∈ others := by
  obtain ⟨place, hsame, -⟩ := h
  obtain ⟨i, rfl⟩ := List.mem_iff_get.1 hmem
  exact List.mem_iff_get.2 ⟨place i, hsame i⟩

theorem Reordered.mem_iff (h : Reordered texts others) : piece ∈ others ↔ piece ∈ texts :=
  ⟨h.symm.mem, h.mem⟩

theorem Reordered.last (h : Reordered texts others) (hlast : Last texts k s) : Last others k s := by
  obtain ⟨place, hsame, horder⟩ := h
  obtain ⟨i, piece, hpiece, hkey, hspelled, hafter⟩ := hlast
  obtain ⟨hi, rfl⟩ := List.getElem?_eq_some_iff.1 hpiece
  refine ⟨place ⟨i, hi⟩, texts[i], ?_, hkey, hspelled, fun m other hlt hother hsets => ?_⟩
  · rw [List.getElem?_eq_getElem (place ⟨i, hi⟩).isLt]
    exact congrArg some (hsame ⟨i, hi⟩)
  · -- A later entry of the key would have come from before the last one.
    obtain ⟨hm, rfl⟩ := List.getElem?_eq_some_iff.1 hother
    obtain ⟨j, hj⟩ := place.surjective ⟨m, hm⟩
    have hsame' : others[m] = texts.get j := by
      rw [← hsame, hj]
      rfl
    rw [hsame'] at hsets
    rcases lt_trichotomy j ⟨i, hi⟩ with hji | rfl | hij
    · have hplaces := horder j ⟨i, hi⟩ k hsets ⟨s, hkey, hspelled⟩ hji
      rw [hj] at hplaces
      exact Nat.lt_asymm hplaces hlt
    · rw [hj] at hlt
      exact Nat.lt_irrefl m hlt
    · exact hafter j _ hij (List.getElem?_eq_getElem j.isLt) hsets

theorem Reordered.latest (h : Reordered texts others) (hlatest : Latest start texts k s) :
    Latest start others k s :=
  hlatest.imp h.last fun hnone => ⟨fun piece hmem => hnone.1 piece (h.mem_iff.1 hmem), hnone.2⟩

end Latest

/-- A text is understood just if each of its entries is, and then the last entry of each key
wins. -/
theorem parse_eq_ok {text : String} {options : Options} :
    parse text = .ok options ↔
      (∀ piece ∈ pieces text, Text.Blank piece ∨ ∃ s : Setting, s.SpelledBy piece) ∧
        ∀ k, Latest {} (pieces text) k (options.setting k) := by
  rw [parse_eq_ok_listed, ← exists_listed_iff]
  constructor
  · rintro ⟨settings, hlisted, rfl⟩
    exact ⟨⟨settings, hlisted⟩, hlisted.latest {}⟩
  · rintro ⟨⟨settings, hlisted⟩, hlatest⟩
    exact ⟨settings, hlisted, ext_setting fun k => (hlisted.latest {} k).eq (hlatest k)⟩

/-- An option text is understood just if each of its entries that is not blank is a known key and
a value for it.  Then each key has the value of its last entry, or the one from the start if it has
none.  So entries may be put into any order in which those of one key follow each other as before,
and one entry that is not understood spoils the text. -/
theorem parse_latest (text : String) :
    ((∃ options, parse text = .ok options) ↔
      ∀ piece ∈ pieces text, Text.Blank piece ∨ ∃ s : Setting, s.SpelledBy piece) ∧
    (∀ options, parse text = .ok options → ∀ k, Latest {} (pieces text) k (options.setting k)) ∧
    (∀ other, Reordered (pieces text) (pieces other) →
      ∀ options, parse other = .ok options ↔ parse text = .ok options) ∧
    ∀ piece ∈ pieces text, ¬Text.Blank piece → (¬∃ s : Setting, s.SpelledBy piece) →
      ∃ fault, parse text = .error fault := by
  refine ⟨?_, fun options h => (parse_eq_ok.1 h).2, fun other h options => ?_, ?_⟩
  · rw [← exists_listed_iff]
    constructor
    · rintro ⟨options, hparse⟩
      obtain ⟨settings, hlisted, -⟩ := parse_eq_ok_listed.1 hparse
      exact ⟨settings, hlisted⟩
    · rintro ⟨settings, hlisted⟩
      exact ⟨_, parse_eq_ok_listed.2 ⟨settings, hlisted, rfl⟩⟩
  · simp only [parse_eq_ok, h.mem_iff]
    exact and_congr_right fun _ => forall_congr' fun k => ⟨h.symm.latest, h.latest⟩
  · intro piece hmem hblank hspelled
    cases hparse : parse text with
    | error fault => exact ⟨fault, rfl⟩
    | ok options => exact absurd ((parse_eq_ok.1 hparse).1 piece hmem) (not_or.2 ⟨hblank, hspelled⟩)

/-- Blanks do not matter, and of two hit modes the last one counts. -/
example : parse " hits = flag,,branches=no ,\thits=count" = .ok { branches := false } := by
  rfl

end Options

end BytecodeCoverage

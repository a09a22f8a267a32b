import BytecodeCoverage.Proofs.Session.History

/-!
# Counters of one version

As long as no class name is rewritten with different code, the array of a name belongs to one version.
Then the machines of the version keep in step with machines of the class as it was, whatever happens in
between, and a counter that is not zero has been counted up by something that the class did.

**Main definitions.**
* `ClassFile.pairingIn`: a class and what it is rewritten to with some options and filters.
* `Scene.Plays`: a history of admissible classes and calls.
* `Scene.Faithful`: no name has been rewritten with different code.
* `Scene.Sound`: the invariant of a history.

**Results.**
* `Scene.Sound.of_effect`: every move keeps the invariant.
* `Scene.Sound.play`: what holds after a history.
-/

namespace BytecodeCoverage

open Machine

/-! ## Registries -/

namespace Registry

variable {r r₁ : Registry} {className : String} {slots : Nat}

/-- Declaring a class anew with the slots it has. -/
theorem Regular.declare (h : r.Regular)
    (hslots : ∀ n, r.slotCount? className = some n → n = slots) :
    (r.declare className slots).Regular where
  made other hits hhits := by
    have hsome := h.made other hits hhits
    rw [slotCount?_declare]
    split
    · rename_i heq
      rw [hslots hits.length (heq ▸ hsome)]
    · exact hsome
  traced other mask hmask := by
    have hsome := h.traced other mask hmask
    rw [slotCount?_declare]
    split
    · rename_i heq
      rw [hslots mask.length (heq ▸ hsome)]
    · exact hsome
  cached := h.cached

namespace Cleared

variable (h : r.Cleared r₁)

include h

theorem isSome_lookup? (className : String) :
    (r₁.lookup? className).isSome = (r.lookup? className).isSome := by
  rcases h.arrays className with heq | heq <;> simp [heq]

theorem later (hregular : r.Regular) : r.Later r₁ where
  regular :=
    { made := fun className hits hhits => by
        have hlength := h.length_lookup? className
        rw [hhits] at hlength
        obtain ⟨old, hold, hlength⟩ := Option.map_eq_some_iff.1 hlength.symm
        rw [slotCount?, h.layouts, ← hlength]
        exact hregular.made className old hold
      traced := fun className mask hmask => by
        rw [h.tracker] at hmask
        rw [slotCount?, h.layouts]
        exact hregular.traced className mask hmask
      cached := fun place e he => by
        rw [h.cache] at he
        rw [h.isSome_lookup?]
        exact hregular.cached place e he }
  layouts := h.layouts
  made className hmade := (h.isSome_lookup? className).trans hmade

/-- A counter that is not zero is as it was. -/
theorem lookup?_of_ne_zero {hits : List UInt32} (hhits : r₁.lookup? className = some hits)
    {place : Nat} {n : UInt32} (hn : hits[place]? = some n) (hne : n ≠ 0) :
    r.lookup? className = some hits := by
  rcases h.arrays className with heq | heq
  · exact heq.symm.trans hhits
  · obtain ⟨old, -, rfl⟩ := Option.map_eq_some_iff.1 (heq.symm.trans hhits)
    obtain ⟨_, -, rfl⟩ := Option.map_eq_some_iff.1 ((List.getElem?_map ..).symm.trans hn)
    exact absurd rfl hne

end Cleared

/-- A counter that is told and not zero is in the array of the class. -/
theorem lookup?_of_counts_ne_zero {place : Nat} {n : UInt32}
    (hn : (r.tally className).counts[place]? = some n) (hne : n ≠ 0) :
    ∃ hits, r.lookup? className = some hits ∧ hits[place]? = some n := by
  unfold tally counters? at hn
  cases hmade : r.lookup? className with
  | some hits =>
      rw [hmade] at hn
      exact ⟨hits, rfl, hn⟩
  | none =>
      rw [hmade] at hn
      cases hslots : r.slotCount? className with
      | none => simp [hslots] at hn
      | some slots =>
          simp only [hslots, Option.map_some, Option.getD_some, List.getElem?_replicate] at hn
          split at hn
          · exact absurd (Option.some.inj hn).symm hne
          · cases hn

end Registry

/-- A counter that is not zero once events have been noted was so before, or an event was counted
at its place. -/
theorem Pairing.Good.exists_of_noted {p : Pairing} (hp : p.Good) {r r₁ : Registry}
    {events : List Event} (h : p.Noted r events r₁) {hits : List UInt32}
    (hhits : r₁.lookup? p.cls.name = some hits) {place : Nat} {n : UInt32}
    (hn : hits[place]? = some n) (hne : n ≠ 0) :
    (∃ e ∈ events, p.Marked e ∧ (p.slotOf? e).map Probe.place = some place) ∨
      ∃ old, r.lookup? p.cls.name = some old ∧ old[place]? = some n := by
  rw [← Registry.counts_tally hhits, h.tally, hp.counts_noteAll] at hn
  obtain ⟨before, hbefore, hn⟩ := Option.map_eq_some_iff.1 hn
  by_cases hnone : events.countP (fun e => (p.slotOf? e).map Probe.place = some place) = 0
  · rw [hnone] at hn
    obtain rfl : before = n := hn
    exact .inr (Registry.lookup?_of_counts_ne_zero hbefore hne)
  · obtain ⟨e, he, hplace⟩ := List.countP_pos_iff.1 (Nat.pos_of_ne_zero hnone)
    exact .inl ⟨e, he, h.marked e he, of_decide_eq_true hplace⟩

/-! ## Versions -/

/-- A class and what it is rewritten to with some options and filters. -/
def ClassFile.pairingIn (cls : ClassFile) (options : Options) (filters : List Filter) : Pairing :=
  let scanned := (cls.scanAll options filters).toOption.getD []
  let laid := layOut options.instructions scanned cls.blankRecord
  cls.pairing (options.probeStyle cls) laid.2 laid.1.slotCount

theorem ClassFile.Made.pairingIn_eq {cls : ClassFile} {options : Options} {filters : List Filter}
    {scanned : List ScannedMethod} {record : ClassRecord}
    {laidOut : List (ScannedMethod × MethodSlots)} {meanings : List Occurrence}
    (h : cls.Made options filters scanned record laidOut meanings) :
    cls.pairingIn options filters =
      cls.pairing (options.probeStyle cls) laidOut record.slotCount := by
  simp only [pairingIn, h.scan, Except.toOption, Option.getD_some, h.layOut]

/-- A version is what the class is rewritten to, and its slots have been declared. -/
structure Version.Declared (options : Options) (filters : List Filter) (registry : Registry)
    (v : Version) : Prop where
  good : (v.original.pairingIn options filters).Good
  probed : (v.original.pairingIn options filters).cls' = v.probed
  slots : registry.slotCount? v.original.name =
    some (v.original.pairingIn options filters).slots

namespace Version.Declared

variable {options : Options} {filters : List Filter} {registry registry' : Registry}
  {v w : Version}

/-- A class is always rewritten to the same version. -/
theorem eq_of_original (hv : v.Declared options filters registry)
    (hw : w.Declared options filters registry') (h : v.original = w.original) : v = w := by
  obtain ⟨original, probed⟩ := v
  obtain ⟨original', probed'⟩ := w
  obtain rfl : original = original' := h
  obtain rfl : probed = probed' := hv.probed.symm.trans hw.probed
  rfl

theorem of_made {cls : ClassFile} {scanned : List ScannedMethod} {record : ClassRecord}
    {laidOut : List (ScannedMethod × MethodSlots)} {meanings : List Occurrence}
    (hcls : cls.Admissible) (hmade : cls.Made options filters scanned record laidOut meanings)
    (hslots : registry.slotCount? cls.name = some record.slotCount) :
    Version.Declared options filters registry
      ⟨cls, cls.withProbes (options.probeStyle cls) laidOut⟩ := by
  have hpairing := hmade.pairingIn_eq
  refine ⟨?_, ?_, ?_⟩
  · rw [hpairing]
    exact hmade.good hcls
  · rw [hpairing]
    rfl
  · rw [hpairing]
    exact hslots

theorem of_slotCount? (h : v.Declared options filters registry)
    (hslots : registry'.slotCount? v.original.name = registry.slotCount? v.original.name) :
    v.Declared options filters registry' :=
  ⟨h.good, h.probed, hslots.trans h.slots⟩

end Version.Declared

/-! ## Histories -/

/-- A record is the one that was taken in, or it was there before. -/
theorem Session.cases_record?_register {s : Session} {record other : ClassRecord} {name : String}
    (h : (s.register record).record? name = some other) :
    (name = record.name ∧ other = record) ∨ s.record? name = some other := by
  by_cases hname : name = record.name
  · rw [hname, record?_register] at h
    exact .inl ⟨hname, (Option.some.inj h).symm⟩
  · exact .inr ((s.records.get?_insert_of_ne record hname).symm.trans h)

namespace Scene

/-- Classes are admissible, their methods can be called like this, and no machine reaches the limit
of steps. -/
def Permits (scene : Scene) : Move → Prop
  | .instrument cls => cls.Admissible
  | .invoke place c => ∀ r, scene.runners[place]? = some r →
      r.version.original.Callable c ∧ (r.invoke scene.registry c).1 ≠ .error .stepLimit
  | _ => True

/-- All moves of a history are permitted. -/
def Plays (filters : List Filter) (scene : Scene) : List Move → Prop
  | [] => True
  | m :: rest => scene.Permits m ∧ (scene.move filters m).Plays filters rest

/-- No class name has been rewritten with different code. -/
def Faithful (scene : Scene) : Prop :=
  ∀ v ∈ scene.versions, ∀ w ∈ scene.versions,
    v.original.name = w.original.name → v.original = w.original

/-- What holds after a history in which no class name is rewritten with different code. -/
structure Sound (options : Options) (filters : List Filter) (scene : Scene) : Prop where
  configured : scene.session.options = options
  regular : scene.registry.Regular
  version : ∀ v ∈ scene.versions, v.Declared options filters scene.registry
  declared : ∀ name, (scene.registry.slotCount? name).isSome →
    ∃ v ∈ scene.versions, v.original.name = name
  record : ∀ name record, scene.session.record? name = some record →
    record.name = name ∧ (record.lines.isEmpty = false →
      ∃ v ∈ scene.versions, v.original.name = name ∧ ∃ scanned laidOut meanings,
        v.original.Made options filters scanned record laidOut meanings)
  runner : ∀ r ∈ scene.runners, r.version ∈ scene.versions ∧
    (r.version.original.pairingIn options filters).Machines r.plain (r.machine.on scene.registry)
  /-- A counter that is not zero is of a slot in which something that was done is counted. -/
  counted : ∀ v ∈ scene.versions, ∀ hits, scene.registry.lookup? v.original.name = some hits →
    ∀ place n, hits[place]? = some n → n ≠ 0 →
      ∃ e, (v, e) ∈ scene.done ∧ (v.original.pairingIn options filters).Marked e ∧
        ((v.original.pairingIn options filters).slotOf? e).map Probe.place = some place

variable {options : Options} {filters : List Filter} {scene later : Scene} {m : Move}

theorem Faithful.of_subset (h : later.Faithful) (hversions : scene.versions ⊆ later.versions) :
    scene.Faithful :=
  fun v hv w hw => h v (hversions hv) w (hversions hw)

theorem Grows.subset {more : List Version} (h : Grows more scene later) :
    scene.versions ⊆ later.versions := by
  rw [h.versions]
  exact List.subset_append_left ..

theorem Grows.faithful {more : List Version} (h : Grows more scene later)
    (hlater : later.Faithful) : scene.Faithful :=
  hlater.of_subset h.subset

theorem sound_start (options : Options) (filters : List Filter) :
    (Scene.start options).Sound options filters where
  configured := rfl
  regular := Registry.Unused.empty.regular
  version := by simp [start]
  declared name hname := by
    cases hname
  record name record hrecord := by
    cases hrecord
  runner := by simp [start]
  counted := by simp [start]

namespace Sound

variable (h : scene.Sound options filters)

include h

/-- Versions with the same name are the same. -/
theorem eq_of_name (hfaithful : scene.Faithful) {v w : Version} (hv : v ∈ scene.versions)
    (hw : w ∈ scene.versions) (hname : v.original.name = w.original.name) : v = w :=
  (h.version v hv).eq_of_original (h.version w hw) (hfaithful v hv w hw hname)

/-- The registry is used in a way that leaves no counter but zero otherwise than it was. -/
theorem of_later {registry : Registry} (hlater : scene.registry.Later registry)
    (hsame : ∀ (name : String) (hits : List UInt32), registry.lookup? name = some hits →
      ∀ (place : Nat) (n : UInt32), hits[place]? = some n → n ≠ 0 →
        scene.registry.lookup? name = some hits) :
    (scene.withRegistry registry).Sound options filters := by
  refine ⟨h.configured, hlater.regular, ?_, ?_, h.record, ?_, ?_⟩
  · intro v hv
    exact (h.version v hv).of_slotCount? (hlater.slotCount? _)
  · intro name hname
    exact h.declared name (by rw [← hlater.slotCount? name]; exact hname)
  · intro r hr
    exact ⟨(h.runner r hr).1, (h.runner r hr).2.later hlater⟩
  · intro v hv hits hhits place n hn hne
    exact h.counted v hv hits (hsame _ hits hhits place n hn hne) place n hn hne

/-- A record with lines is that of the version of its class. -/
theorem record_eq (hfaithful : scene.Faithful) {v : Version} (hv : v ∈ scene.versions)
    {scanned : List ScannedMethod} {record known : ClassRecord}
    {laidOut : List (ScannedMethod × MethodSlots)} {meanings : List Occurrence}
    (hmade : v.original.Made options filters scanned record laidOut meanings)
    (hknown : scene.session.record? v.original.name = some known)
    (hlines : known.lines.isEmpty = false) : known = record := by
  obtain ⟨w, hw, hname, scanned', laidOut', meanings', hmade'⟩ :=
    (h.record _ known hknown).2 hlines
  obtain rfl := h.eq_of_name hfaithful hw hv hname
  obtain rfl := Except.ok.inj (hmade'.scan.symm.trans hmade.scan)
  exact congrArg Prod.fst (hmade'.layOut.symm.trans hmade.layOut)

/-- Counters are set to zero. -/
theorem cleared {registry : Registry} (hcleared : scene.registry.Cleared registry) :
    (scene.withRegistry registry).Sound options filters :=
  h.of_later (hcleared.later h.regular) fun _ _ hhits _ _ => hcleared.lookup?_of_ne_zero hhits

/-- Taking in a record without lines. -/
theorem skipped {cls : ClassFile} {scanned : List ScannedMethod} {record : ClassRecord}
    {laidOut : List (ScannedMethod × MethodSlots)} {meanings : List Occurrence}
    (hmade : cls.Made options filters scanned record laidOut meanings)
    (hlines : record.lines.isEmpty = true) :
    ({ scene with session := scene.session.register record } : Scene).Sound options filters := by
  have hregistry : (scene.session.register record).registry = scene.registry := by
    simp only [Session.register, hmade.slotCount_eq_zero hlines]
    rfl
  have hsame : ({ scene with session := scene.session.register record } : Scene).registry =
      scene.registry := hregistry
  refine ⟨h.configured, hsame ▸ h.regular, hsame ▸ h.version, hsame ▸ h.declared, ?_, hsame ▸ h.runner,
    hsame ▸ h.counted⟩
  intro name other hother
  rcases Session.cases_record?_register hother with ⟨rfl, rfl⟩ | hother
  · exact ⟨rfl, fun hfalse => by rw [hlines] at hfalse; cases hfalse⟩
  · exact h.record name other hother

/-- Arrays are made for versions only. -/
theorem exists_of_lookup? {name : String} {hits : List UInt32}
    (hhits : scene.registry.lookup? name = some hits) :
    ∃ v ∈ scene.versions, v.original.name = name :=
  h.declared name (by rw [h.regular.made name hits hhits]; rfl)

section Rewritten

variable {cls : ClassFile} {scanned : List ScannedMethod} {record : ClassRecord}
  {laidOut : List (ScannedMethod × MethodSlots)} {meanings : List Occurrence}
  (hmade : cls.Made options filters scanned record laidOut meanings)
  (hsame : ∀ v ∈ scene.versions, v.original.name = cls.name → v.original = cls)

include hmade hsame

/-- A class that is rewritten again has as many slots as before. -/
theorem slots_eq {n : Nat} (hn : scene.registry.slotCount? cls.name = some n) :
    n = record.slotCount := by
  obtain ⟨v, hv, hname⟩ := h.declared cls.name (by rw [hn]; rfl)
  have hdeclared := (h.version v hv).slots
  rw [hsame v hv hname, hn, hmade.pairingIn_eq, Option.some.injEq] at hdeclared
  exact hdeclared

/-- Declaring its slots again changes nothing for the versions that are there. -/
theorem version_declare {v : Version} (hv : v ∈ scene.versions) :
    v.Declared options filters (scene.registry.declare cls.name record.slotCount) := by
  refine (h.version v hv).of_slotCount? ?_
  rw [Registry.slotCount?_declare]
  split
  · rename_i heq
    have hcount := (h.version v hv).slots
    rw [heq] at hcount ⊢
    rw [hcount, ← h.slots_eq hmade hsame hcount]
  · rfl

end Rewritten

/-- A class gets probes. -/
theorem rewritten {cls : ClassFile} {scanned : List ScannedMethod} {record : ClassRecord}
    {laidOut : List (ScannedMethod × MethodSlots)} {meanings : List Occurrence} {v : Version}
    (hv : v = ⟨cls, cls.withProbes (options.probeStyle cls) laidOut⟩) (hcls : cls.Admissible)
    (hmade : cls.Made options filters scanned record laidOut meanings)
    (hlines : record.lines.isEmpty = false)
    (hlater : later =
      { scene with
        session := scene.session.register record
        versions := scene.versions ++ [v] })
    (hfaithful : later.Faithful) : later.Sound options filters := by
  have hregistry : later.registry = scene.registry.declare cls.name record.slotCount := by
    rw [hlater]
    exact hmade.registry_register hlines scene.session
  have horiginal : v.original = cls := by rw [hv]
  have hversions : later.versions = scene.versions ++ [v] := by rw [hlater]
  have hnew : v ∈ later.versions := by simp [hversions]
  have hold : ∀ w ∈ scene.versions, w ∈ later.versions := by
    intro w hw
    rw [hversions]
    exact List.mem_append_left _ hw
  have hsame : ∀ w ∈ scene.versions, w.original.name = cls.name → w.original = cls := by
    intro w hw hname
    rw [← horiginal] at hname ⊢
    exact hfaithful w (hold w hw) v hnew hname
  have hdeclared : ∀ w ∈ later.versions, w.Declared options filters later.registry := by
    rw [hversions, hregistry]
    refine List.forall_mem_append.2 ⟨fun w hw => h.version_declare hmade hsame hw, ?_⟩
    rw [List.forall_mem_singleton, hv]
    refine .of_made hcls hmade ?_
    rw [Registry.slotCount?_declare, if_pos rfl]
  have hregular : later.registry.Regular :=
    hregistry ▸ h.regular.declare fun n hn => h.slots_eq hmade hsame hn
  have hlookup : ∀ name, later.registry.lookup? name = scene.registry.lookup? name := by
    intro name
    rw [hregistry]
    rfl
  refine ⟨?_, hregular, hdeclared, ?_, ?_, ?_, ?_⟩
  · rw [hlater]
    exact h.configured
  · intro name hname
    by_cases heq : name = cls.name
    · exact ⟨v, hnew, by rw [horiginal, heq]⟩
    · rw [hregistry, Registry.slotCount?_declare, if_neg heq] at hname
      obtain ⟨w, hw, hname⟩ := h.declared name hname
      exact ⟨w, hold w hw, hname⟩
  · intro name other hother
    rw [hlater] at hother
    rcases Session.cases_record?_register hother with ⟨rfl, rfl⟩ | hother
    · refine ⟨rfl, fun _ => ⟨v, hnew, ?_, scanned, laidOut, meanings, horiginal ▸ hmade⟩⟩
      rw [horiginal, hmade.name_record]
    · obtain ⟨hname, hmade⟩ := h.record name other hother
      refine ⟨hname, fun hlines => ?_⟩
      obtain ⟨w, hw, hmade⟩ := hmade hlines
      exact ⟨w, hold w hw, hmade⟩
  · intro r hr
    rw [hlater] at hr
    obtain ⟨hmem, hmachines⟩ := h.runner r hr
    refine ⟨hold _ hmem, hmachines.moved hregular (hdeclared _ (hold _ hmem)).slots fun name => ?_⟩
    rw [hlookup]
    exact id
  · intro w hw hits hhits
    have hdone : later.done = scene.done := by rw [hlater]
    rw [hlookup] at hhits
    rw [hdone]
    -- The version that the array was made for was there before.
    obtain ⟨u, hu, hname⟩ := h.exists_of_lookup? hhits
    obtain rfl : u = w := (hdeclared u (hold u hu)).eq_of_original (hdeclared w hw)
      (hfaithful u (hold u hu) w hw hname)
    exact h.counted u hu hits hhits

/-- A machine is started. -/
theorem started {v : Version} (hv : v ∈ scene.versions) (keeper : Nat) :
    (scene.startRunner v keeper).Sound options filters := by
  refine ⟨h.configured, h.regular, h.version, h.declared, h.record, ?_, h.counted⟩
  intro r hr
  rcases List.mem_append.1 hr with hr | hr
  · exact h.runner r hr
  · obtain rfl := List.mem_singleton.1 hr
    have hdeclared := h.version v hv
    have hstart := (v.original.pairingIn options filters).machines_start {} 0 keeper h.regular
      hdeclared.slots
    rw [hdeclared.probed] at hstart
    exact ⟨hv, hstart⟩

/-- A method is called on a machine. -/
theorem called (hfaithful : scene.Faithful) {place : Nat} {r : Runner} {c : Call}
    (hr : scene.runners[place]? = some r) (hc : r.version.original.Callable c)
    (hlimit : (r.invoke scene.registry c).1 ≠ .error .stepLimit) :
    (scene.call place r c).Sound options filters := by
  obtain ⟨hv, hmachines⟩ := h.runner r (List.mem_of_getElem? hr)
  have hgood := (h.version _ hv).good
  obtain ⟨-, hmachines', hnoted⟩ := hgood.invoke_alike hmachines hc hlimit
  have hlater : scene.registry.Later (scene.call place r c).registry := .of_counted hnoted.counted
  refine ⟨h.configured, hlater.regular, ?_, ?_, h.record, ?_, ?_⟩
  · intro v hv
    exact (h.version v hv).of_slotCount? (hlater.slotCount? _)
  · intro name hname
    exact h.declared name (by rw [← hlater.slotCount? name]; exact hname)
  · intro other hother
    rcases List.mem_or_eq_of_mem_set hother with hother | rfl
    · exact ⟨(h.runner other hother).1, (h.runner other hother).2.later hlater⟩
    · exact ⟨hv, hmachines'⟩
  · intro v hv' hits hhits i n hn hne
    by_cases hname : v.original.name = r.version.original.name
    · obtain rfl := h.eq_of_name hfaithful hv' hv hname
      rcases hgood.exists_of_noted hnoted hhits hn hne with ⟨e, he, hevent⟩ | ⟨old, hold, hn⟩
      · exact ⟨e, List.mem_append_right _ (List.mem_map_of_mem he), hevent⟩
      · obtain ⟨e, he, hevent⟩ := h.counted _ hv old hold i n hn hne
        exact ⟨e, List.mem_append_left _ he, hevent⟩
    · have hlookup := hnoted.counted.lookups _ hname
      obtain ⟨e, he, hevent⟩ := h.counted v hv' hits (hlookup.symm.trans hhits) i n hn hne
      exact ⟨e, List.mem_append_left _ he, hevent⟩

end Sound

/-- Every move keeps the invariant, as long as no class name is rewritten with different code. -/
theorem Sound.of_effect (h : scene.Sound options filters) (hpermits : scene.Permits m)
    (heffect : scene.Effect filters m later) (hfaithful : later.Faithful) :
    later.Sound options filters := by
  have hbefore : scene.Faithful := by
    obtain ⟨more, hgrows⟩ := heffect.grows
    exact hgrows.faithful hfaithful
  cases heffect with
  | none => exact h
  | rewritten hmade hlines =>
      rw [h.configured] at hmade
      exact h.rewritten (by rw [h.configured]) hpermits hmade hlines rfl hfaithful
  | skipped hmade hlines =>
      rw [h.configured] at hmade
      exact h.skipped hmade hlines
  | started place keeper hv => exact h.started hv keeper
  | called place c hr =>
      obtain ⟨hc, hlimit⟩ := hpermits _ hr
      exact h.called hbefore hr hc hlimit
  | reset => exact h.cleared scene.registry.cleared_reset
  | resetClass className => exact h.cleared (scene.registry.cleared_resetClass className)

/-- The invariant holds after a history. -/
theorem Sound.play (h : scene.Sound options filters) {history : List Move}
    (hplays : scene.Plays filters history)
    (hfaithful : (scene.play filters history).Faithful) :
    (scene.play filters history).Sound options filters := by
  induction history generalizing scene with
  | nil => exact h
  | cons m rest ih =>
      obtain ⟨hpermits, hplays⟩ := hplays
      obtain ⟨more, hgrows⟩ := (scene.move filters m).grows_play filters rest
      have hfaithful₁ := hgrows.faithful hfaithful
      exact ih (h.of_effect hpermits (scene.effect_move filters m) hfaithful₁) hplays hfaithful

end Scene

end BytecodeCoverage

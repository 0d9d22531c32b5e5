import RivicQ.Intelligence.Findings
import RivicQ.Lib.Framing

namespace RivicQ.Properties.Exports

open RivicQ.Lib.Firsts RivicQ.Lib.Numerals RivicQ.Intelligence.Findings RivicQ.Intelligence.CycloneDX
open RivicQ.Discovery.Components (CBOMComponent)

/-- The document has an asset of that name at that location, with its size as a numeral. -/
def Exported (doc : Document) (algorithm location : String) (keySize : Int) : Prop :=
  ∃ e ∈ doc.components, e.name = algorithm ∧ e.properties.lookup "rivicq:location" = some location ∧
    (0 < keySize → e.parameterSetIdentifier = toString keySize)

/-- The sizes that have a numeral of their own. -/
def ownSizes : List Int := [1024, 2048, 3072]

/-- The label of size `m` is the numeral of `n`. -/
def Shows (m n : Int) : Prop :=
  (m = n ∧ n ∈ ownSizes) ∨ (n = 4096 ∧ 0 < m ∧ m ∉ ownSizes)

/-- An asset that comes before all others with its key, and that stands for another one. -/
def Represented (all : List Asset) (a : Asset) : Prop :=
  ∃ b, First Asset.key all b ∧ b.name = a.algorithm ∧ b.location = a.location ∧
    (0 < a.keySize → Shows b.keySize a.keySize)

variable {cs : List CBOMComponent} {fs : List Finding} {a : Asset} {m n : Int}

theorem keySizeLabel_eq_iff (hn : 0 < n) : keySizeLabel m = toString n ↔ Shows m n := by
  obtain ⟨k, rfl⟩ := Int.eq_ofNat_of_zero_le (Int.le_of_lt hn)
  have hnumeral : ∀ d : Nat, toString d = toString (k : Int) ↔ (d : Int) = k := fun d =>
    toString_inj.trans Int.ofNat_inj.symm
  unfold keySizeLabel itoa Shows
  split_ifs with hm h₁ h₂ h₃
  · refine iff_of_false toString_ne_empty.symm ?_
    rintro (⟨rfl, -⟩ | ⟨-, hpos, -⟩)
    · exact absurd hn (Int.not_lt.mpr hm)
    · exact absurd hpos (Int.not_lt.mpr hm)
  · exact (hnumeral 1024).trans (by subst h₁; simp [ownSizes, eq_comm]; omega)
  · exact (hnumeral 2048).trans (by subst h₂; simp [ownSizes]; omega)
  · exact (hnumeral 3072).trans (by subst h₃; simp [ownSizes]; omega)
  · exact (hnumeral 4096).trans (by simp [ownSizes, h₁, h₂, h₃]; omega)

theorem entry_name (a : Asset) : a.entry.name = a.name := by cases a <;> rfl

theorem entry_location (a : Asset) :
    a.entry.properties.lookup "rivicq:location" = some a.location := by cases a <;> rfl

theorem entry_label (a : Asset) : a.entry.parameterSetIdentifier = keySizeLabel a.keySize := by
  cases a <;> rfl

theorem mem_assets : a ∈ assets cs fs ↔
    (∃ c ∈ cs, .component c = a) ∨ ∃ f ∈ fs, f.algorithm ≠ "" ∧ .finding f = a := by
  simp only [assets, List.mem_append, List.mem_map, List.mem_filter, decide_eq_true_eq, and_assoc]

variable {uuid timestamp target : String}

theorem mem_components {e : Entry} :
    e ∈ (cycloneDXBOM uuid timestamp target cs fs).components ↔
      ∃ b, First Asset.key (assets cs fs) b ∧ b.entry = e := by
  simp only [cycloneDXBOM, List.mem_map, mem_firsts]

theorem exported_iff_represented :
    Exported (cycloneDXBOM uuid timestamp target cs fs) a.algorithm a.location a.keySize ↔
      Represented (assets cs fs) a := by
  have hentry : ∀ b : Asset, (b.entry.name = a.algorithm ∧
      b.entry.properties.lookup "rivicq:location" = some a.location ∧
      (0 < a.keySize → b.entry.parameterSetIdentifier = toString a.keySize)) ↔
      (b.name = a.algorithm ∧ b.location = a.location ∧
        (0 < a.keySize → Shows b.keySize a.keySize)) := by
    intro b
    rw [entry_name, entry_location, entry_label, Option.some.injEq]
    exact and_congr_right fun _ => and_congr_right fun _ =>
      forall_congr' fun hsize => keySizeLabel_eq_iff hsize
  constructor
  · rintro ⟨_, he, h⟩
    obtain ⟨b, hfirst, rfl⟩ := mem_components.mp he
    exact ⟨b, hfirst, (hentry b).mp h⟩
  · rintro ⟨b, hfirst, h⟩
    exact ⟨b.entry, mem_components.mpr ⟨b, hfirst, rfl⟩, (hentry b).mpr h⟩

/-- The document has all components and findings that name an algorithm if and only if each of
them is represented. -/
theorem exported_iff (uuid timestamp target : String) (cs : List CBOMComponent)
    (fs : List Finding) :
    ((∀ c ∈ cs, c.algorithm ≠ "" →
        Exported (cycloneDXBOM uuid timestamp target cs fs) c.algorithm c.location c.keySize) ∧
      ∀ f ∈ fs, f.algorithm ≠ "" →
        Exported (cycloneDXBOM uuid timestamp target cs fs) f.algorithm f.location f.keyLength) ↔
      ∀ a ∈ assets cs fs, a.algorithm ≠ "" → Represented (assets cs fs) a := by
  constructor
  · rintro ⟨hcomponents, hfindings⟩ a ha hnamed
    obtain ⟨c, hc, rfl⟩ | ⟨f, hf, -, rfl⟩ := mem_assets.mp ha
    · exact exported_iff_represented.mp (hcomponents c hc hnamed)
    · exact exported_iff_represented.mp (hfindings f hf hnamed)
  · intro h
    constructor
    · intro c hc hnamed
      have ha : .component c ∈ assets cs fs := mem_assets.mpr (.inl ⟨c, hc, rfl⟩)
      exact exported_iff_represented.mpr (h _ ha hnamed)
    · intro f hf hnamed
      have ha : .finding f ∈ assets cs fs := mem_assets.mpr (.inr ⟨f, hf, hnamed, rfl⟩)
      exact exported_iff_represented.mpr (h _ ha hnamed)

/-- AES-256 is exported with the numeral 4096. -/
theorem aes_not_exported : ¬ ∀ (uuid timestamp target : String) (cs : List CBOMComponent)
    (fs : List Finding), (∀ c ∈ cs, c.algorithm ≠ "" →
        Exported (cycloneDXBOM uuid timestamp target cs fs) c.algorithm c.location c.keySize) ∧
      ∀ f ∈ fs, f.algorithm ≠ "" →
        Exported (cycloneDXBOM uuid timestamp target cs fs) f.algorithm f.location f.keyLength := by
  intro h
  let aes : CBOMComponent :=
    { algorithm := "AES", keySize := 256, riskLevel := .low, quantumSafe := true
      pqcStatus := "safe", location := "main.go" }
  obtain ⟨e, he, -, -, hlabel⟩ := (h "" "" "" [aes] []).1 aes List.mem_cons_self (by decide)
  obtain ⟨b, hfirst, rfl⟩ := mem_components.mp he
  obtain rfl : b = .component aes := List.mem_singleton.mp hfirst.mem
  exact absurd (hlabel (by decide)) (by decide)

end RivicQ.Properties.Exports

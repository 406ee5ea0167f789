/-
# What the DNS generator chooses

A generated name is a corpus entry or a list of random labels, and `domainDraw` makes the
same draws as `generateDomainName` without writing the name. Label lengths are reduced to
the range from 1 to 63, and up to five labels are joined. So two things go wrong on some
draws: a label of 63 characters, at which the query builder fails an assertion, and a
name that is longer than names can be. `DomainDraw.Fits` says which draws are left.
-/

import ProtocolFuzzer.Protocols.DNS.Patterns

namespace ProtocolFuzzer.DNS

open Math Platform

/-- The labels of a name are separated by dots. -/
def labelsOf (name : List UInt8) : List (List UInt8) := name.splitOn 0x2E

/-- The octets of an encoded name: each label with its length, and the terminator. -/
def encodedLength (labels : List (List UInt8)) : ℕ :=
  (labels.map fun label => label.length + 1).sum + 1

/-- The labels are not empty and short enough for the query builder, and the name is short
enough for DNS. -/
def Permitted (name : List UInt8) : Prop :=
  (∀ label ∈ labelsOf name, 1 ≤ label.length ∧ label.length ≤ 62) ∧
    encodedLength (labelsOf name) ≤ 255

instance (name : List UInt8) : Decidable (Permitted name) := inferInstanceAs (Decidable (_ ∧ _))

theorem permitted_of_mem_domainCorpus : ∀ name ∈ domainCorpus, Permitted name := by
  decide +kernel

/-- A label: the number its length is reduced from, and its characters. -/
structure LabelDraw where
  lengthDraw : ℕ
  chars : List ℕ

/-- How a name was chosen: a corpus entry, or random labels. -/
inductive DomainDraw
  | corpus (idx : ℕ)
  | random (labels : List LabelDraw)

namespace LabelDraw

def text (label : LabelDraw) : List UInt8 := label.chars.map (pick labelCharset labelCharset_pos)

/-- The length that the draw is reduced to. -/
def reduced (label : LabelDraw) : ℕ := label.lengthDraw % 63 + 1

end LabelDraw

namespace DomainDraw

def text : DomainDraw → List UInt8
  | .corpus idx => pick domainCorpus domainCorpus_pos idx
  | .random labels => (utf8 ".").intercalate (labels.map LabelDraw.text)

/-- No label has 63 characters, and all labels fit into 255 octets. -/
def Fits : DomainDraw → Prop
  | .corpus _ => True
  | .random labels =>
    (∀ label ∈ labels, label.lengthDraw % 63 ≠ 62) ∧
      (labels.map fun label => label.lengthDraw % 63 + 2).sum + 1 ≤ 255

/-- There are labels, and each has as many characters as its length says. -/
def Complete : DomainDraw → Prop
  | .corpus _ => True
  | .random labels => labels ≠ [] ∧ ∀ label ∈ labels, label.chars.length = label.reduced

end DomainDraw

variable {σ : Type} [DrawSource σ]

def labelDraw : Gen σ LabelDraw := do
  let lengthDraw ← usizeOr 3
  let chars ← replicateDraw (lengthDraw % 63 + 1) (usizeOr 0)
  pure { lengthDraw, chars }

def randomDomainDraw : Gen σ DomainDraw := do
  let labelCount := (← usizeOr 2) % 5 + 1
  let labels ← replicateDraw labelCount labelDraw
  pure (.random labels)

/-- The choices of `generateDomainName`. -/
def domainDraw : Gen σ DomainDraw := do
  if (← boolOr false) && !domainCorpus.isEmpty then
    let idx ← usizeOr 0
    pure (.corpus idx)
  else
    randomDomainDraw

theorem generateDomainName_eq :
    (generateDomainName : Gen σ (List UInt8)) = DomainDraw.text <$> domainDraw := by
  have hlabel : (generateLabel : Gen σ (List UInt8)) = LabelDraw.text <$> labelDraw := by
    rw [generateLabel, labelDraw, map_bind]
    apply bind_congr
    intro length
    apply (replicateDraw_map (pick labelCharset labelCharset_pos) (usizeOr 0) _).trans
    simp only [map_eq_pure_bind, bind_assoc, pure_bind, LabelDraw.text]
  have hrandom : (generateRandomDomain : Gen σ (List UInt8)) =
      DomainDraw.text <$> randomDomainDraw := by
    rw [generateRandomDomain, randomDomainDraw, map_bind]
    apply bind_congr
    intro count
    simp only [hlabel, replicateDraw_map]
    simp only [map_eq_pure_bind, bind_assoc, pure_bind, DomainDraw.text]
  rw [generateDomainName, domainDraw]
  exact corpusOr_eq_map (fun idx => rfl) hrandom

theorem labelDraw_length : Always (labelDraw : Gen σ _) fun label =>
    label.chars.length = label.reduced :=
  Always.bind (always_true _) fun _ _ =>
    Always.bind (Always.replicate (always_true (usizeOr 0)) _) fun _ hchars =>
      always_pure hchars.1

theorem domainDraw_complete : Always (domainDraw : Gen σ _) DomainDraw.Complete := by
  refine Always.bind (always_true _) fun useCorpus _ => ?_
  split_ifs
  · exact Always.bind (always_true _) fun _ _ => always_pure trivial
  · refine Always.bind (always_true _) fun count _ =>
      Always.bind (Always.replicate labelDraw_length _) fun labels hlabels => always_pure ?_
    exact ⟨List.ne_nil_of_length_pos (by omega), hlabels.2⟩

theorem labelsOf_text {labels : List LabelDraw} (hne : labels ≠ []) :
    labelsOf (DomainDraw.random labels).text = labels.map LabelDraw.text := by
  have hcharset : ∀ byte ∈ labelCharset, byte ≠ 0x2E := by decide +kernel
  refine List.splitOn_intercalate 0x2E ?_ (by simpa using hne)
  intro text htext hdot
  obtain ⟨label, -, rfl⟩ := List.mem_map.mp htext
  obtain ⟨char, -, hchar⟩ := List.mem_map.mp hdot
  exact hcharset _ (pick_mem labelCharset labelCharset_pos char) hchar

theorem DomainDraw.Complete.permitted_iff {drawn : DomainDraw} (h : drawn.Complete) :
    Permitted drawn.text ↔ drawn.Fits := by
  cases drawn with
  | corpus idx =>
      exact iff_of_true (permitted_of_mem_domainCorpus _ (pick_mem _ domainCorpus_pos idx)) trivial
  | random labels =>
      obtain ⟨hne, hlengths⟩ := h
      have hlength : ∀ label ∈ labels, label.text.length = label.lengthDraw % 63 + 1 := by
        intro label hlabel
        rw [LabelDraw.text, List.length_map, hlengths label hlabel, LabelDraw.reduced]
      have hsizes : encodedLength (labels.map LabelDraw.text) =
          (labels.map fun label => label.lengthDraw % 63 + 2).sum + 1 := by
        rw [encodedLength, List.map_map]
        refine congrArg (List.sum · + 1) (List.map_congr_left fun label hlabel => ?_)
        exact congrArg (· + 1) (hlength label hlabel)
      rw [Permitted, DomainDraw.Fits, labelsOf_text hne, hsizes, List.forall_mem_map]
      apply and_congr_left
      intro _
      apply forall₂_congr
      intro label hlabel
      rw [hlength label hlabel]
      omega

/-- The query builder asserts that labels have less than 63 bytes, and nothing else. -/
def AssertsLabels (build : Builder) : Prop :=
  ∀ id name queryType, NoPanic (build id name queryType) ↔
    ∀ label ∈ labelsOf name, label.length < 63

/-- The source from which the name of a packet is drawn. -/
def afterTransactionId (s : σ) : σ := (u16OrRandom.run s).2

/-- The name that a packet generated from this source asks for. -/
def requestedName (s : σ) : List UInt8 := (generateDomainName.run (afterTransactionId s)).1

/-- A packet is generated unless the builder panics. -/
theorem generateValidPacket_returns_iff {build : Builder} (hbuild : AssertsLabels build) (s : σ) :
    NoPanic ((generateValidPacket build).run s) ↔
      ∀ label ∈ labelsOf (requestedName s), label.length < 63 :=
  (noPanic_lift_iff _ _).trans (hbuild _ _ _)

/-- Damaging a packet always returns. -/
theorem generateMalformedPacket_returns_iff (build : Builder) (s : σ) :
    NoPanic ((generateMalformedPacket build).run s) ↔
      NoPanic ((generateValidPacket build).run s) := by
  constructor
  · rintro ⟨result, hrun⟩
    rw [generateMalformedPacket, StateT.run_bind] at hrun
    obtain ⟨valid, hvalid, -⟩ := bind_eq_ok.mp hrun
    exact ⟨valid, hvalid⟩
  · rintro ⟨⟨valid, s'⟩, hrun⟩
    have hvalid : CompletesFrom s (generateValidPacket build) fun _ => True :=
      ⟨valid, s', hrun, trivial⟩
    have hmalformed : CompletesFrom s (generateMalformedPacket build) fun _ => True := by
      apply hvalid.bind
      intro valid _
      cases valid with
      | none => exact completes_pure trivial
      | some basePacket =>
          exact Completes.bind (completes_draw _) fun _ _ =>
            Completes.bind (applyMalformedPatterns_completes _ basePacket) fun _ _ =>
              completes_pure trivial
    exact hmalformed.noPanic

/-- The name of a query is one that the builder and DNS accept, and both kinds of packets
are generated, exactly when the draws of the name fit. -/
theorem requestedName_permitted_iff (build : Builder) (hbuild : AssertsLabels build) (s : σ) :
    (Permitted (requestedName s) ∧ NoPanic ((generateValidPacket build).run s) ∧
        NoPanic ((generateMalformedPacket build).run s)) ↔
      (domainDraw.run (afterTransactionId s)).1.Fits := by
  have hname : requestedName s = (domainDraw.run (afterTransactionId s)).1.text := by
    rw [requestedName, generateDomainName_eq]
    rfl
  rw [← (domainDraw_complete (afterTransactionId s)).permitted_iff, ← hname]
  refine ⟨And.left, fun hpermitted => ?_⟩
  have hvalid : NoPanic ((generateValidPacket build).run s) := by
    rw [generateValidPacket_returns_iff hbuild]
    exact fun label hlabel => Nat.lt_succ_of_le (hpermitted.1 label hlabel).2
  exact ⟨hpermitted, hvalid, (generateMalformedPacket_returns_iff build s).mpr hvalid⟩

/-- Builds a query for an address, after the assertion on its labels. -/
def buildAddressQuery : Builder := fun id name _ =>
  if ∀ label ∈ labelsOf name, label.length < 63 then
    .ok (some (toBE16 id ++ [0, 0, 0, 1, 0, 0, 0, 0, 0, 0]
      ++ (labelsOf name).flatMap (fun label => UInt8.ofNat label.length :: label)
      ++ [0, 0, 1, 0, 1]))
  else
    .error .assertionFailed

theorem assertsLabels_buildAddressQuery : AssertsLabels buildAddressQuery := by
  intro id name queryType
  rw [buildAddressQuery]
  split_ifs with short
  · exact iff_of_true (noPanic_ok _) short
  · exact iff_of_false (fun ⟨_, h⟩ => by cases h) short

/-- Draws of a name with one label, of the given length. -/
def labelDraws (length : UInt8) : Unstructured := { data := List.replicate 11 0 ++ [length - 1] }

/-- A label of 63 characters is drawn, and the builder panics. -/
theorem requestedName_rejected :
    ¬ Permitted (requestedName (labelDraws 63)) ∧
      ¬ NoPanic ((generateValidPacket buildAddressQuery).run (labelDraws 63)) ∧
      ¬ NoPanic ((generateMalformedPacket buildAddressQuery).run (labelDraws 63)) := by
  have hlong : ¬ ∀ label ∈ labelsOf (requestedName (labelDraws 63)), label.length < 63 := by
    decide +kernel
  rw [generateMalformedPacket_returns_iff,
    generateValidPacket_returns_iff assertsLabels_buildAddressQuery]
  exact ⟨fun h => hlong fun label hlabel => Nat.lt_succ_of_le (h.1 label hlabel).2, hlong, hlong⟩

theorem requestedName_permitted_iff_short :
    Permitted (requestedName (labelDraws 5)) ∧
      NoPanic ((generateValidPacket buildAddressQuery).run (labelDraws 5)) ∧
      NoPanic ((generateMalformedPacket buildAddressQuery).run (labelDraws 5)) :=
  (requestedName_permitted_iff buildAddressQuery assertsLabels_buildAddressQuery
    (labelDraws 5)).mpr (by
    change (∀ label ∈ _, _) ∧ _
    decide +kernel)

end ProtocolFuzzer.DNS

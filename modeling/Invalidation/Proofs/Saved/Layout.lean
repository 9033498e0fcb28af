import Invalidation.Proofs.Except
import Invalidation.Proofs.MessagePack.RoundTrip
import Invalidation.Proofs.Store.Facts
import Invalidation.Saved.Document
import Invalidation.Saved.Graph
import Mathlib.Data.List.Perm.Subperm

/-! What was saved is what is loaded: the header and the body of a graph are read back as they were
written, if the format holds the graph.
-/

namespace Invalidation

-----------------------------------------------------------------------------------------
-- The schemas of a saved graph
-----------------------------------------------------------------------------------------

theorem Variants.sound_spelled {α : Type} [DecidableEq α] (text : α → String) (values : List α)
    (depth : Nat)
    : (Variants.spelled text values).Sound depth := by
  induction values with
  | nil => trivial
  | cons value rest ih => exact ih

theorem Variants.holds_spelled {α : Type} [DecidableEq α] {text : α → String} {values : List α}
    {value : α} (known : value ∈ values)
    : (Variants.spelled text values).Holds value := by
  induction values with
  | nil => cases known
  | cons head rest ih =>
      rcases List.mem_cons.1 known with rfl | later
      · exact .inl (decide_eq_true rfl)
      · exact .inr (ih later)

theorem Aspect.holds (aspect : Aspect) : Aspect.schema.Holds aspect := by
  apply Variants.holds_spelled
  cases aspect <;> decide

theorem Kind.holds (kind : Kind) : Kind.schema.Holds kind := by
  apply Variants.holds_spelled
  cases kind <;> decide

theorem Aspect.sound (depth : Nat) : Aspect.schema.Sound depth :=
  ⟨⟨by decide, by decide⟩, Variants.sound_spelled Aspect.text Aspect.all depth⟩

theorem Kind.sound (depth : Nat) : Kind.schema.Sound depth :=
  ⟨⟨by decide, by decide⟩, Variants.sound_spelled Kind.text Kind.all depth⟩

namespace Saved

theorem Header.sound : Header.schema.Sound MessagePack.depthLimit :=
  ⟨by decide, by decide, ⟨by decide, by decide⟩, ⟨by decide, trivial⟩, trivial, trivial, trivial⟩

theorem Fingerprint.sound (depth : Nat) : Fingerprint.schema.Sound depth :=
  ⟨⟨by decide, by decide⟩, trivial, trivial⟩

theorem Node.sound {depth : Nat} (deep : 2 < depth) : Node.schema.Sound depth := by
  have outer : 1 < depth := by omega
  have inner : 1 < depth - 1 := by omega
  exact ⟨outer, by decide, ⟨by decide, by decide⟩, Aspect.sound _, Kind.sound _,
    ⟨rfl, trivial⟩, ⟨rfl, trivial⟩, ⟨rfl, Fingerprint.sound _⟩, trivial, trivial,
    ⟨inner, trivial⟩, trivial⟩

theorem Unit.sound {depth : Nat} (deep : 4 < depth) : Unit.schema.Sound depth := by
  have outer : 1 < depth := by omega
  have inner : 1 < depth - 1 := by omega
  exact ⟨outer, by decide, ⟨by decide, by decide⟩, trivial,
    ⟨inner, Node.sound (by omega)⟩, trivial⟩

theorem External.sound {depth : Nat} (deep : 1 < depth) : External.schema.Sound depth :=
  ⟨deep, by decide, ⟨by decide, by decide⟩, trivial, ⟨rfl, Fingerprint.sound _⟩, trivial⟩

theorem Body.sound : Body.schema.Sound MessagePack.depthLimit :=
  ⟨by decide, by decide, ⟨by decide, by decide⟩, ⟨by decide, trivial⟩,
    ⟨by decide, Unit.sound (by decide)⟩, ⟨by decide, External.sound (by decide)⟩, trivial⟩

theorem Header.holds_current : Header.schema.Holds .current := by
  have bytes : ∀ value ∈ current.magic, value < 0x100 := by decide
  have version : (1 : Nat) < 0x10000 ∧ (0 : Nat) < 0x10000 := by decide
  exact ⟨⟨rfl, by decide, bytes⟩, version.1, version.2, trivial⟩

/-- The bytes that every saved graph begins with. -/
def Header.bytes : Bytes := MessagePack.write false Header.schema .current

example : Header.bytes = [0x93, 0x94, 68, 71, 80, 72, 1, 0] := by decide

-----------------------------------------------------------------------------------------
-- The body of a graph
-----------------------------------------------------------------------------------------

theorem mem_table {graph : Graph} {text : String} : text ∈ table graph ↔ text ∈ texts graph :=
  List.mem_eraseDups

theorem unit_mem_table {graph : Graph} {unit : UnitName} (known : unit ∈ graph.store.unitNames)
    : unit ∈ table graph :=
  mem_table.2 (List.mem_append_left _ (List.mem_flatMap.2
    ⟨unit, known, List.mem_append_right _ (List.mem_singleton.2 rfl)⟩))

theorem factText_mem_table {graph : Graph} {unit : UnitName} {fact : Fact}
    (owned : fact ∈ graph.store.factsOf unit) {text : String} (refers : text ∈ factTexts fact)
    : text ∈ table graph :=
  mem_table.2 (List.mem_append_left _ (List.mem_flatMap.2
    ⟨unit, Store.mem_unitNames_of_mem_factsOf owned,
      List.mem_append_left _ (List.mem_flatMap.2 ⟨fact, owned, refers⟩)⟩))

theorem externalText_mem_table {graph : Graph} {external : Invalidation.External}
    (listed : external ∈ graph.externals.toList) {text : String}
    (refers : text ∈ external.path :: fingerprintTexts external.fingerprint)
    : text ∈ table graph :=
  mem_table.2 (List.mem_append_right _ (List.mem_flatMap.2 ⟨external, listed, refers⟩))

/-- There are no more units than texts, since the name of each is one of them. -/
theorem length_unitNames_le (graph : Graph)
    : graph.store.unitNames.length ≤ (table graph).length :=
  (graph.store.units.distinct.subperm fun _ => unit_mem_table).length_le

theorem length_externals_le (graph : Graph)
    : graph.externals.entries.length ≤ (table graph).length := by
  have included : graph.externals.keys ⊆ table graph := by
    intro path known
    obtain ⟨entry, stored, rfl⟩ := List.mem_map.1 known
    exact externalText_mem_table (List.mem_map.2 ⟨entry, stored, rfl⟩) (List.mem_cons_self ..)
  have few := (graph.externals.distinct.subperm included).length_le
  rwa [List.length_map] at few

end Saved

/-- The format holds a graph: less than 2^32 texts are referred to, of less than 2^32 bytes each, and
no unit has more facts, nor a fact more edges, than that.
-/
structure Graph.Fits (graph : Graph) : Prop where
  texts : (Saved.table graph).length < 2 ^ 32
  bytes : ∀ text ∈ Saved.table graph, (Bytes.ofText text).length < 2 ^ 32
  facts : ∀ unit ∈ graph.store.unitNames, (graph.store.factsOf unit).length < 2 ^ 32
  edges
    : ∀ unit ∈ graph.store.unitNames,
        ∀ fact ∈ graph.store.factsOf unit, fact.dependsOn.length < 2 ^ 32

instance (graph : Graph) : Decidable graph.Fits :=
  decidable_of_iff
    (((Saved.table graph).length < 2 ^ 32
        ∧ ∀ text ∈ Saved.table graph, (Bytes.ofText text).length < 2 ^ 32)
      ∧ ∀ unit ∈ graph.store.unitNames,
          (graph.store.factsOf unit).length < 2 ^ 32
          ∧ ∀ fact ∈ graph.store.factsOf unit, fact.dependsOn.length < 2 ^ 32)
    ⟨fun ⟨⟨texts, bytes⟩, units⟩ =>
        ⟨texts, bytes, fun unit known => (units unit known).1,
          fun unit known => (units unit known).2⟩,
      fun fits => ⟨⟨fits.texts, fits.bytes⟩,
        fun unit known => ⟨fits.facts unit known, fits.edges unit known⟩⟩⟩

namespace Saved

variable {graph : Graph}

theorem holds_ofFingerprint (fits : graph.Fits) (fingerprint : Invalidation.Fingerprint)
    : Fingerprint.schema.Holds (ofFingerprint (table graph) fingerprint) := by
  cases fingerprint with
  | digest token => exact Nat.lt_of_le_of_lt List.idxOf_le_length fits.texts
  | unreadable => exact .inl rfl

theorem holds_ofFact (fits : graph.Fits) {keys : List Key} (few : keys.length < 2 ^ 32)
    {fact : Fact} (edges : fact.dependsOn.length < 2 ^ 32)
    : Node.schema.Holds (ofFact (table graph) keys fact) := by
  have index (text : String) : (table graph).idxOf text < 0x100000000 :=
    Nat.lt_of_le_of_lt List.idxOf_le_length fits.texts
  have places : ∀ place ∈ fact.dependsOn.filterMap fun target => keys.findIdx? (· = target),
      place < 0x100000000 := by
    intro place member
    obtain ⟨target, -, found⟩ := List.mem_filterMap.1 member
    obtain ⟨within, -⟩ := List.findIdx?_eq_some_iff_getElem.1 found
    exact Nat.lt_trans within few
  refine ⟨Aspect.holds _, Kind.holds _, ?_, ?_, ?_, trivial, trivial, ⟨?_, places⟩, trivial⟩
  · intro given member
    obtain ⟨text, -, rfl⟩ := Option.map_eq_some_iff.1 member
    exact index text
  · intro given member
    obtain ⟨text, -, rfl⟩ := Option.map_eq_some_iff.1 member
    exact index text
  · intro given member
    obtain ⟨fingerprint, -, rfl⟩ := Option.map_eq_some_iff.1 member
    exact holds_ofFingerprint fits fingerprint
  · exact Nat.lt_of_le_of_lt (List.length_filterMap_le _ _) edges

/-- The format holds the body of a graph that it holds. -/
theorem holds_ofGraph (fits : graph.Fits) : Body.schema.Holds (ofGraph graph) := by
  have index (text : String) : (table graph).idxOf text < 0x100000000 :=
    Nat.lt_of_le_of_lt List.idxOf_le_length fits.texts
  refine ⟨⟨fits.texts, fits.bytes⟩, ⟨?_, ?_⟩, ⟨?_, ?_⟩, trivial⟩
  · rw [ofGraph, List.length_map]
    exact Nat.lt_of_le_of_lt (length_unitNames_le graph) fits.texts
  · intro saved member
    obtain ⟨unit, known, rfl⟩ := List.mem_map.1 member
    have few : (graph.store.factsOf unit).length < 2 ^ 32 := fits.facts unit known
    refine ⟨index unit, ⟨by rwa [List.length_map], ?_⟩, trivial⟩
    intro node saved
    obtain ⟨fact, owned, rfl⟩ := List.mem_map.1 saved
    exact holds_ofFact fits (by rwa [List.length_map]) (fits.edges unit known fact owned)
  · rw [ofGraph, List.length_map, Externals.toList, List.length_map]
    exact Nat.lt_of_le_of_lt (length_externals_le graph) fits.texts
  · intro saved member
    obtain ⟨external, -, rfl⟩ := List.mem_map.1 member
    refine ⟨index external.path, ?_, trivial⟩
    intro given member
    obtain ⟨fingerprint, -, rfl⟩ := Option.map_eq_some_iff.1 member
    exact holds_ofFingerprint fits fingerprint

end Saved

-----------------------------------------------------------------------------------------
-- Loading what was saved
-----------------------------------------------------------------------------------------

namespace Graph

variable {graph : Graph} {bytes rest : Bytes}

theorem save_answer_eq_ok_iff
    : graph.save.answer = .ok bytes
      ↔ graph.check = .ok ()
        ∧ bytes
          = MessagePack.write false Saved.Header.schema .current
            ++ MessagePack.write true Saved.Body.schema (Saved.ofGraph graph) := by
  unfold save
  split
  · rename_i error failed
    simp [failed]
  · rename_i passed
    simp [passed, eq_comm]

/-- Saving reads the graph, and leaves it as it was. -/
theorem save_graph (graph : Graph) : graph.save.graph = graph := by
  unfold save
  split <;> rfl

/-- A header can be used if it is decoded and has the marks of the format. -/
theorem readHeader_eq_ok_iff
    : readHeader bytes = .ok rest
      ↔ ∃ header,
          MessagePack.decode Saved.Header.schema bytes = .ok (header, rest)
          ∧ header.magic = Saved.Header.current.magic
          ∧ header.major = Saved.Header.current.major := by
  unfold readHeader
  constructor
  · intro told
    obtain ⟨⟨header, left⟩, decoded, told⟩ := bind_eq_ok.1 told
    by_cases magic : header.magic = Saved.Header.current.magic
    · by_cases major : header.major = Saved.Header.current.major
      · simp only [magic, major, ne_eq, not_true_eq_false, ↓reduceIte] at told
        obtain rfl := pure_eq_ok.1 told
        exact ⟨header, mapError_eq_ok.1 decoded, magic, major⟩
      · simp only [magic, major, ne_eq, not_true_eq_false, not_false_eq_true, ↓reduceIte] at told
        cases told
    · simp only [magic, ne_eq, not_false_eq_true, ↓reduceIte] at told
      cases told
  · rintro ⟨header, decoded, magic, major⟩
    refine bind_eq_ok.2 ⟨(header, rest), mapError_eq_ok.2 decoded, ?_⟩
    simp only [magic, major, ne_eq, not_true_eq_false, ↓reduceIte]
    rfl

/-- The header of a saved graph is read whatever follows it. -/
theorem readHeader_saved (rest : Bytes) : readHeader (Saved.Header.bytes ++ rest) = .ok rest :=
  readHeader_eq_ok_iff.2 ⟨.current,
    MessagePack.decode_write false Saved.Header.sound Saved.Header.holds_current rest, rfl, rfl⟩

/-- Behind a header that can be used, loading comes to decoding a body and reading it. -/
theorem load_of_readHeader (told : readHeader bytes = .ok rest)
    {options : Options} (incremental : options.incremental = true)
    : load bytes options
      = (MessagePack.decode Saved.Body.schema rest).mapError .undecodable
        >>= fun (body, _) => Saved.toGraph options body := by
  rw [load, incremental, told]
  rfl

/-- Loading what a graph was saved as comes to reading its body, where the format holds the graph.
-/
theorem load_of_save (fits : graph.Fits) (saved : graph.save.answer = .ok bytes)
    {options : Options} (incremental : options.incremental = true)
    : load bytes options = Saved.toGraph options (Saved.ofGraph graph) := by
  obtain ⟨-, rfl⟩ := save_answer_eq_ok_iff.1 saved
  have body := MessagePack.decode_write true Saved.Body.sound (Saved.holds_ofGraph fits) []
  rw [List.append_nil] at body
  have told
      : readHeader (MessagePack.write false Saved.Header.schema .current
          ++ MessagePack.write true Saved.Body.schema (Saved.ofGraph graph))
        = .ok (MessagePack.write true Saved.Body.schema (Saved.ofGraph graph)) :=
    readHeader_saved _
  rw [load_of_readHeader told incremental, body]
  rfl

end Graph

end Invalidation

import Invalidation.Proofs.Graph.Reload
import Invalidation.Proofs.MessagePack.Truncation

/-! A save that was cut short is noticed when it is loaded, wherever the cut is: within the header
incremental tracking is unavailable, and behind it the body cannot be decoded. What stands behind a
whole saved graph is not looked at.
-/

namespace Invalidation.Graph

variable {graph loaded : Graph} {options : Options} {bytes rest : Bytes}

-----------------------------------------------------------------------------------------
-- What loading fails for
-----------------------------------------------------------------------------------------

/-- Without incremental tracking no document is looked at. -/
theorem load_of_not_incremental (off : options.incremental = false) (bytes : Bytes)
    : load bytes options = .error (.unavailable .disabled) := by
  rw [load, off]
  rfl

theorem load_of_unreadable_header (incremental : options.incremental = true)
    {failure : MessagePack.Failure}
    (unreadable : MessagePack.decode Saved.Header.schema bytes = .error failure)
    : load bytes options = .error (.unavailable (.unreadableHeader failure)) := by
  rw [load, incremental, readHeader, unreadable]
  rfl

theorem load_of_undecodable_body (incremental : options.incremental = true)
    (told : readHeader bytes = .ok rest) {failure : MessagePack.Failure}
    (undecodable : MessagePack.decode Saved.Body.schema rest = .error failure)
    : load bytes options = .error (.undecodable failure) := by
  rw [load_of_readHeader told incremental, undecodable]
  rfl

-----------------------------------------------------------------------------------------
-- Cut short and gone on
-----------------------------------------------------------------------------------------

/-- What stands behind a document that loads is not looked at. -/
theorem load_append (loads : load bytes options = .ok loaded) (more : Bytes)
    : load (bytes ++ more) options = .ok loaded := by
  obtain ⟨incremental, rest, body, left, told, decoded, read⟩ := load_eq_ok_iff.1 loads
  obtain ⟨header, headerDecoded, magic, major⟩ := readHeader_eq_ok_iff.1 told
  refine load_eq_ok_iff.2 ⟨incremental, rest ++ more, body, left ++ more, ?_, ?_, read⟩
  · exact readHeader_eq_ok_iff.2
      ⟨header, MessagePack.decode_append headerDecoded more, magic, major⟩
  · exact MessagePack.decode_append decoded more

theorem load_of_cut_in_header (incremental : options.incremental = true) {count : Nat}
    (cut : count < Saved.Header.bytes.length)
    : ∃ failure : MessagePack.Failure,
        failure.endsEarly = true
        ∧ load (Saved.Header.bytes.take count) options
          = .error (.unavailable (.unreadableHeader failure)) := by
  obtain ⟨failure, early, unreadable⟩ :=
    MessagePack.decode_take_write false Saved.Header.sound Saved.Header.holds_current cut
  exact ⟨failure, early, load_of_unreadable_header incremental unreadable⟩

theorem load_of_cut_in_body (incremental : options.incremental = true) {body : Saved.Body}
    (holds : Saved.Body.schema.Holds body) {count : Nat}
    (cut : count < (MessagePack.write true Saved.Body.schema body).length)
    : ∃ failure : MessagePack.Failure,
        failure.endsEarly = true
        ∧ load
            (Saved.Header.bytes
              ++ (MessagePack.write true Saved.Body.schema body).take count)
            options
          = .error (.undecodable failure) := by
  obtain ⟨failure, early, undecodable⟩ :=
    MessagePack.decode_take_write true Saved.Body.sound holds cut
  exact ⟨failure, early, load_of_undecodable_body incremental (readHeader_saved _) undecodable⟩

/-- A saved graph begins with the header. If the format holds the graph, none of its bytes can be
missing at the end: loading then fails because the document ends early, in the header for a cut
within the header and in the body for one behind it, or at once without incremental tracking, where
no document is looked at. Bytes behind a saved graph that loads change nothing.
-/
theorem torn_save_refused {saved : Bytes} (saves : graph.save.answer = .ok saved)
    (fits : graph.Fits) (options : Options)
    : Saved.Header.bytes <+: saved
      ∧ (∀ count < saved.length,
          (options.incremental = false
            → load (saved.take count) options = .error (.unavailable .disabled))
          ∧ (options.incremental = true
            → count < Saved.Header.bytes.length
            → ∃ failure : MessagePack.Failure,
                failure.endsEarly = true
                ∧ load (saved.take count) options
                  = .error (.unavailable (.unreadableHeader failure)))
          ∧ (options.incremental = true
            → Saved.Header.bytes.length ≤ count
            → ∃ failure : MessagePack.Failure,
                failure.endsEarly = true
                ∧ load (saved.take count) options = .error (.undecodable failure)))
      ∧ ∀ loaded,
          load saved options = .ok loaded → ∀ more, load (saved ++ more) options = .ok loaded := by
  have form
      : saved = Saved.Header.bytes ++ MessagePack.write true Saved.Body.schema
          (Saved.ofGraph graph) := (save_answer_eq_ok_iff.1 saves).2
  refine ⟨form ▸ List.prefix_append _ _, fun count cut => ⟨?_, ?_, ?_⟩, ?_⟩
  · exact fun off => load_of_not_incremental off _
  · intro incremental within
    rw [form, List.take_append_of_le_length (Nat.le_of_lt within)]
    exact load_of_cut_in_header incremental within
  · intro incremental behind
    rw [form, List.length_append] at cut
    rw [form, List.take_append, List.take_of_length_le behind]
    exact load_of_cut_in_body incremental (Saved.holds_ofGraph fits) (by omega)
  · exact fun loaded loads more => load_append loads more

/-- A save with fingerprints and an artifact is refused without its last byte, and loads with one
byte more as it does without.
-/
theorem torn_fingerprints_refused
    : ∃ saved loaded failure,
        fingerprintsHeld.save.answer = .ok saved
        ∧ Saved.Header.bytes.length < saved.length
        ∧ load (saved.take (saved.length - 1)) {} = .error (.undecodable failure)
        ∧ load saved {} = .ok loaded
        ∧ load (saved ++ [0]) {} = .ok loaded := by
  have carried : fingerprintsHeld.Carried := .after (.after (.new {}) _) _
  have fits : fingerprintsHeld.Fits := by decide
  obtain ⟨saved, saves⟩ := carried.consistent.exists_save
  have loads : load saved {} = .ok (Saved.restored {} fingerprintsHeld) :=
    carried.consistent.load_eq_restored fits saves rfl (by decide)
  have long : Saved.Header.bytes.length < saved.length := by
    obtain ⟨-, rfl⟩ := save_answer_eq_ok_iff.1 saves
    decide +kernel
  obtain ⟨-, refused, extended⟩ := torn_save_refused saves fits {}
  obtain ⟨-, -, behind⟩ := refused (saved.length - 1) (by omega)
  obtain ⟨failure, -, fails⟩ := behind rfl (by omega)
  exact ⟨saved, _, failure, saves, long, fails, loads, extended _ loads [0]⟩

end Invalidation.Graph

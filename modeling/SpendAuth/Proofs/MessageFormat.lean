import SpendAuth.Proofs.Wire.CountForm
import SpendAuth.SignedMessage

set_option autoImplicit false

namespace SpendAuth.MessageSigner

def TextFits (text : String) : Prop :=
  text.utf8ByteSize < 2 ^ 64

instance decidableTextFits (text : String) : Decidable (TextFits text) :=
  inferInstanceAs (Decidable (text.utf8ByteSize < 2 ^ 64))

theorem length_lengthPrefixed (text : String) :
    (lengthPrefixed text).length = CompactSize.size text.utf8ByteSize + text.utf8ByteSize := by
  rw [lengthPrefixed, List.length_append, CompactSize.length_encode, Bytes.length_ofText]

theorem length_format (signer : MessageSigner) (message : String) :
    (signer.format message).length =
      CompactSize.size signer.magic.utf8ByteSize + CompactSize.size message.utf8ByteSize +
        signer.magic.utf8ByteSize + message.utf8ByteSize := by
  rw [format, List.length_append, length_lengthPrefixed, length_lengthPrefixed]
  omega

/-- A text behind its length marks its own end. -/
theorem delimiting_lengthPrefixed : Delimiting TextFits lengthPrefixed := by
  intro a b s t aFits bFits same
  obtain ⟨bytes, rest⟩ := delimiting_counted _ _ s t aFits bFits same
  exact ⟨Bytes.ofText_injective a b bytes, rest⟩

/-- The bytes that are hashed mark their own end, and the ends of both texts. -/
theorem delimiting_format :
    Delimiting (fun pair : MessageSigner × String => TextFits pair.1.magic ∧ TextFits pair.2)
      fun pair => pair.1.format pair.2 := by
  rintro ⟨⟨magic⟩, message⟩ ⟨⟨magic'⟩, message'⟩ s t fits fits' same
  simp only [format, List.append_assoc] at same
  obtain ⟨rfl, rest⟩ := delimiting_lengthPrefixed _ _ _ _ fits.1 fits'.1 same
  obtain ⟨rfl, tail⟩ := delimiting_lengthPrefixed _ _ _ _ fits.2 fits'.2 rest
  exact ⟨rfl, tail⟩

/--
The bytes that are hashed have the length of both texts and of their counts, and they determine the
signers and the message. So where two pairs of these have one digest, their bytes collide.
-/
theorem format_unambiguous :
    (∀ (signer : MessageSigner) (message : String),
      (signer.format message).length =
        CompactSize.size signer.magic.utf8ByteSize + CompactSize.size message.utf8ByteSize +
          signer.magic.utf8ByteSize + message.utf8ByteSize) ∧
    ∀ (signer other : MessageSigner) (message text : String),
      TextFits signer.magic → TextFits message → TextFits other.magic → TextFits text →
        (signer.format message = other.format text ↔ signer = other ∧ message = text) ∧
        (signer.digest message = other.digest text →
          (signer = other ∧ message = text) ∨
            signer.format message ≠ other.format text ∧
              sha256d (signer.format message) = sha256d (other.format text)) := by
  refine ⟨length_format, fun signer other message text magicFits fits otherFits textFits => ?_⟩
  have determined : signer.format message = other.format text ↔ signer = other ∧ message = text := by
    constructor
    · intro same
      exact Prod.mk.inj (delimiting_format.injective (a := (signer, message)) (b := (other, text))
        ⟨magicFits, fits⟩ ⟨otherFits, textFits⟩ same)
    · rintro ⟨rfl, rfl⟩
      rfl
  refine ⟨determined, fun sameDigest => ?_⟩
  by_cases same : signer = other ∧ message = text
  · exact .inl same
  · exact .inr ⟨mt determined.1 same, sameDigest⟩

/-- Two pairs that are the same text when they are put together. -/
theorem format_unambiguous_shifted :
    TextFits "ab" ∧ TextFits "c" ∧ TextFits "a" ∧ TextFits "bc" ∧
      (⟨"ab"⟩ : MessageSigner).format "c" ≠ (⟨"a"⟩ : MessageSigner).format "bc" := by
  have ab : TextFits "ab" := by decide
  have c : TextFits "c" := by decide
  have a : TextFits "a" := by decide
  have bc : TextFits "bc" := by decide
  refine ⟨ab, c, a, bc, fun same => ?_⟩
  have equal := ((format_unambiguous.2 _ _ _ _ ab c a bc).1.1 same).2
  exact absurd equal (by decide)

end SpendAuth.MessageSigner

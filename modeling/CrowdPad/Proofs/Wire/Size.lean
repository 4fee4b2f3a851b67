import CrowdPad.Proofs.Wire.Writer

/-! How large messages are. The bytes of a message are those of its key, of the name of its direction and
of its numbers, and a fixed number of others. So a release has two bytes more than its press, and one more
for each digit by which its number is longer. -/

namespace CrowdPad

namespace Utf8

/-- The number of bytes of some characters. -/
def width (cs : List Char) : Nat := (cs.flatMap encodeChar).length

theorem width_nil : width [] = 0 := rfl

theorem width_cons (c : Char) (more : List Char) :
    width (c :: more) = (encodeChar c).length + width more := by
  simp [width]

theorem width_append (cs more : List Char) : width (cs ++ more) = width cs + width more := by
  simp [width]

theorem length_encode_ofList (cs : List Char) : (encode (String.ofList cs)).length = width cs := by
  rw [encode, String.toList_ofList, width]

/-- Characters below 128 have one byte each. -/
theorem width_of_lt {cs : List Char} (h : ∀ c ∈ cs, c.toNat < 0x80) : width cs = cs.length := by
  induction cs with
  | nil => rfl
  | cons c rest ih =>
      obtain ⟨hc, hrest⟩ := List.forall_mem_cons.mp h
      have hone : (encodeChar c).length = 1 := by
        rw [encodeChar, if_pos hc]
        rfl
      rw [width_cons, hone, ih hrest, List.length_cons, Nat.add_comm]

end Utf8

namespace Json

/-- The number of digits of a number. -/
def digits (n : Nat) : Nat := (natChars n).length

theorem width_natChars (n : Nat) : Utf8.width (natChars n) = digits n := by
  refine Utf8.width_of_lt fun c hc => ?_
  have hnine : c ≤ '9' := (isDigit_of_mem_natChars hc).2
  exact Nat.lt_of_le_of_lt hnine (by decide)

theorem digits_pos (n : Nat) : 0 < digits n :=
  List.length_pos_of_ne_nil (natChars_ne_nil n)

/-- A number of 64 bits has at most 20 digits. -/
theorem digits_le (n : UInt64) : digits n.toNat ≤ 20 := by
  rw [digits, natChars_eq]
  exact Nat.toDigits_length 10 n.toNat 20 (by decide) (Nat.lt_trans n.toNat_lt (by decide))

/-- The number of bytes of a text between quotation marks. -/
def quotedSize (s : String) : Nat := Utf8.width (s.toList.flatMap escape)

theorem width_quoteChars (s : String) : Utf8.width (quoteChars s) = quotedSize s + 2 := by
  have hquote : Utf8.width ['"'] = 1 := rfl
  have hsplit : quoteChars s = ['"'] ++ s.toList.flatMap escape ++ ['"'] := rfl
  rw [hsplit, Utf8.width_append, Utf8.width_append, hquote, quotedSize]
  omega

/-- Characters that need no escape and have one byte each. -/
theorem quotedSize_of_plain {s : String}
    (h : ∀ c ∈ s.toList, escape c = [c] ∧ c.toNat < 0x80) : quotedSize s = s.length := by
  have hplain : s.toList.flatMap escape = s.toList := by
    have hsingle : s.toList.flatMap escape = s.toList.flatMap fun c => [c] :=
      List.flatMap_congr fun c hc => (h c hc).1
    rw [hsingle, List.flatMap_singleton']
  rw [quotedSize, hplain, Utf8.width_of_lt fun c hc => (h c hc).2, String.length_toList]

end Json

namespace WireMessage

/-- The name of a direction needs no escape. -/
theorem quotedSize_name (t : Transition) : Json.quotedSize t.name = t.name.length := by
  cases t <;> rfl

theorem length_payload (m : WireMessage) : m.payload.length = 54 + Json.digits m.version.toNat +
    Json.digits m.player.toNat + Json.quotedSize m.key + m.transition.name.length +
      Json.digits m.seq.toNat := by
  have hnat (n : Nat) : Json.compactChars (.nat n) = Json.natChars n := rfl
  have hsigns : (Utf8.encodeChar '\x7b').length = 1 ∧ (Utf8.encodeChar '\x7d').length = 1 ∧
      (Utf8.encodeChar ':').length = 1 ∧ (Utf8.encodeChar ',').length = 1 := by decide
  have hnames : Json.quotedSize "v" = 1 ∧ Json.quotedSize "player_index" = 12 ∧
      Json.quotedSize "key" = 3 ∧ Json.quotedSize "transition" = 10 ∧ Json.quotedSize "seq" = 3 := by
    decide +kernel
  rw [payload, Json.compact, Utf8.length_encode_ofList]
  simp only [toValue, Json.compactChars, Json.compactFields, hnat, Utf8.width_append, Utf8.width_cons,
    Utf8.width_nil, Json.width_natChars, Json.width_quoteChars, quotedSize_name, hsigns, hnames]
  omega

/-- A release has two bytes more than its press, and one for each digit by which its number is longer. -/
theorem length_payload_release {press release : WireMessage} (hversion : release.version = press.version)
    (hplayer : release.player = press.player) (hkey : release.key = press.key)
    (hdown : press.transition = .press) (hup : release.transition = .release) :
    release.payload.length + Json.digits press.seq.toNat =
      press.payload.length + 2 + Json.digits release.seq.toNat := by
  have hfive : press.transition.name.length = 5 := by rw [hdown]; rfl
  have hseven : release.transition.name.length = 7 := by rw [hup]; rfl
  rw [length_payload, length_payload, hversion, hplayer, hkey, hfive, hseven]
  omega

/-- A release goes into a frame where its press leaves room for what it has more. -/
theorem fits_release_iff {press release : WireMessage} (hversion : release.version = press.version)
    (hplayer : release.player = press.player) (hkey : release.key = press.key)
    (hdown : press.transition = .press) (hup : release.transition = .release) :
    release.fits ↔ press.payload.length + 2 + Json.digits release.seq.toNat ≤
      maxPayload + Json.digits press.seq.toNat := by
  have hlength := length_payload_release hversion hplayer hkey hdown hup
  rw [fits_iff]
  omega

end WireMessage

end CrowdPad

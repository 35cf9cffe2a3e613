import MiningClient.Bytes

namespace MiningClient.Utf8

def encode (s : String) : Bytes := s.toUTF8.data.toList

def decode? (bs : Bytes) : Option String := String.fromUTF8? ⟨bs.toArray⟩

theorem decode?_encode (s : String) : decode? (encode s) = some s := by
  have h : (⟨s.toUTF8.data.toList.toArray⟩ : ByteArray) = s.toUTF8 := by simp
  unfold decode? encode String.fromUTF8?
  rw [h]
  have hv : s.toUTF8.IsValidUTF8 := s.isValidUTF8
  rw [dif_pos hv]
  rfl

theorem encode_of_decode? {bs : Bytes} {s : String} (h : decode? bs = some s) : encode s = bs := by
  unfold decode? String.fromUTF8? at h
  split at h
  · cases h
    simp [encode, String.toUTF8, String.fromUTF8]
  · cases h

def continues (b : UInt8) : Bool := 0x80 ≤ b && b ≤ 0xBF

/-- What the second byte may be after a leading byte of three or four. -/
def secondAllowed (lead second : UInt8) : Bool :=
  if lead = 0xE0 then 0xA0 ≤ second && second ≤ 0xBF
  else if lead = 0xED then 0x80 ≤ second && second ≤ 0x9F
  else if lead = 0xF0 then 0x90 ≤ second && second ≤ 0xBF
  else if lead = 0xF4 then 0x80 ≤ second && second ≤ 0x8F
  else continues second

def replacement : Char := '\uFFFD'

def tail (b : UInt8) : Nat := b.toNat % 64

/-- The character that a sequence begun by `lead` stands for, and how many of the next bytes
belong to it. -/
def sequence (lead : UInt8) (rest : Bytes) : Char × Nat :=
  if lead < 0x80 then (Char.ofNat lead.toNat, 0)
  else if lead < 0xC2 then (replacement, 0)
  else if lead < 0xE0 then
    match rest with
    | b :: _ =>
      if continues b then (Char.ofNat (lead.toNat % 32 * 64 + tail b), 1) else (replacement, 0)
    | [] => (replacement, 0)
  else if lead < 0xF0 then
    match rest with
    | b :: more =>
      if secondAllowed lead b then
        match more with
        | c :: _ =>
          if continues c then
            (Char.ofNat ((lead.toNat % 16 * 64 + tail b) * 64 + tail c), 2)
          else (replacement, 1)
        | [] => (replacement, 1)
      else (replacement, 0)
    | [] => (replacement, 0)
  else if lead < 0xF5 then
    match rest with
    | b :: more =>
      if secondAllowed lead b then
        match more with
        | c :: more =>
          if continues c then
            match more with
            | d :: _ =>
              if continues d then
                (Char.ofNat (((lead.toNat % 8 * 64 + tail b) * 64 + tail c) * 64 + tail d), 3)
              else (replacement, 2)
            | [] => (replacement, 2)
          else (replacement, 1)
        | [] => (replacement, 1)
      else (replacement, 0)
    | [] => (replacement, 0)
  else (replacement, 0)

def lossyChars : Bytes → List Char
  | [] => []
  | lead :: rest =>
    let (c, used) := sequence lead rest
    c :: lossyChars (rest.drop used)
  termination_by bs => bs.length
  decreasing_by simp only [List.length_drop, List.length_cons]; omega

/-- Text as it is, when the bytes are well formed. Else U+FFFD stands for each maximal part of an ill-
formed sequence, so every byte string is read. -/
def lossy (bs : Bytes) : String :=
  (decode? bs).getD (String.ofList (lossyChars bs))

end MiningClient.Utf8

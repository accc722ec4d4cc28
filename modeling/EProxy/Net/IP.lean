import EProxy.Framework.Layout

/-!
# Addresses of the Go standard library

`net.IP` is a slice of bytes: four of them for an IPv4 address, sixteen for an
IPv6 one, where an IPv4 address may also stand in its IPv4-mapped form. `nil` is
the empty slice. `parseIP` follows the textual grammar of `net.ParseIP`, which
returns every address in sixteen bytes.
-/

namespace EProxy

open Framework

/-- `net.IP`. -/
abbrev IP := List UInt8

/-- The twelve bytes that precede an IPv4 address in its IPv4-mapped form. -/
def v4InV6Prefix : IP := [0, 0, 0, 0, 0, 0, 0, 0, 0, 0, 0xff, 0xff]

/-- `IP.To4`: the four-byte form of an IPv4 address, `nil` for any other slice. -/
def to4 (ip : IP) : IP :=
  if ip.length = 4 then ip
  else if ip.length = 16 ∧ ip.take 12 = v4InV6Prefix then ip.drop 12
  else []

/-- `binary.LittleEndian.Uint32`; it panics (`none`) on fewer than four bytes. -/
def littleEndianUint32 : List UInt8 → Option UInt32
  | b₀ :: b₁ :: b₂ :: b₃ :: _ => some (word32 b₀ b₁ b₂ b₃)
  | _ => none

/-- The encoding both `DeleteService` and `AppendService` use for an address. -/
def IP.encoded (ip : IP) : Option UInt32 := littleEndianUint32 (to4 ip)

/-- A four-byte address has an encoding. -/
theorem encoded_of_length {ip : IP} (h : ip.length = 4) :
    ∃ b₀ b₁ b₂ b₃, ip = [b₀, b₁, b₂, b₃] ∧ IP.encoded ip = some (word32 b₀ b₁ b₂ b₃) := by
  obtain ⟨b₀, b₁, b₂, b₃, rfl⟩ := List.length_eq_four.mp h
  exact ⟨b₀, b₁, b₂, b₃, rfl, rfl⟩

/-! ### Textual addresses -/

/-- The value of a decimal digit. -/
def digitVal (c : Char) : Option ℕ :=
  if '0' ≤ c ∧ c ≤ '9' then some (c.toNat - '0'.toNat) else none

/-- The value of a hexadecimal digit. -/
def hexVal (c : Char) : Option ℕ :=
  if '0' ≤ c ∧ c ≤ '9' then some (c.toNat - '0'.toNat)
  else if 'a' ≤ c ∧ c ≤ 'f' then some (c.toNat - 'a'.toNat + 10)
  else if 'A' ≤ c ∧ c ≤ 'F' then some (c.toNat - 'A'.toNat + 10)
  else none

/-- The loop of `parseIPv4`: `fields` are the octets read so far, `val` the value of
the current one and `digLen` the number of its digits. -/
def parseIPv4Loop (fields : List UInt8) (val digLen : ℕ) : List Char → Option IP
  | [] => if digLen = 0 ∨ fields.length ≠ 3 then none else some (fields ++ [UInt8.ofNat val])
  | c :: rest =>
    match digitVal c with
    | some d =>
      -- a leading zero, or a field over 255
      if (digLen = 1 ∧ val = 0) ∨ 255 < val * 10 + d then none
      else parseIPv4Loop fields (val * 10 + d) (digLen + 1) rest
    | none =>
      if c = '.' then
        -- an empty field, or a fifth one
        if digLen = 0 ∨ fields.length = 3 then none
        else parseIPv4Loop (fields ++ [UInt8.ofNat val]) 0 0 rest
      else none

/-- `parseIPv4`: four decimal octets without leading zeros, separated by dots. -/
def parseIPv4 (s : List Char) : Option IP := parseIPv4Loop [] 0 0 s

/-- The leading hexadecimal digits of a group: their number, their value, and what
follows; `none` past four digits. -/
def parseHexGroup (off acc : ℕ) : List Char → Option (ℕ × ℕ × List Char)
  | [] => some (off, acc, [])
  | c :: rest =>
    match hexVal c with
    | some d => if 3 < off then none else parseHexGroup (off + 1) (acc * 16 + d) rest
    | none => some (off, acc, c :: rest)

/-- The end of `parseIPv6`: the bytes read expand at the ellipsis to sixteen. -/
def expandEllipsis (bytes : IP) : Option ℕ → Option IP
  | none => if bytes.length = 16 then some bytes else none
  | some e =>
    if bytes.length < 16 then
      some (bytes.take e ++ List.replicate (16 - bytes.length) 0 ++ bytes.drop e)
    else none

/-- The loop of `parseIPv6`: `bytes` are the bytes read so far and `ellipsis` the
position of a `::` among them. Each turn reads one group, so eight turns do. -/
def parseIPv6Loop : ℕ → IP → Option ℕ → List Char → Option IP
  | 0, bytes, ellipsis, s => if s = [] then expandEllipsis bytes ellipsis else none
  | fuel + 1, bytes, ellipsis, s =>
    match parseHexGroup 0 0 s with
    | none => none
    | some (0, _, _) => none
    | some (_, _, '.' :: _) =>
      -- a trailing IPv4 address
      if (ellipsis = none ∧ bytes.length ≠ 12) ∨ 12 < bytes.length then none
      else (parseIPv4 s).bind fun v4 => expandEllipsis (bytes ++ v4) ellipsis
    | some (_, acc, rest) =>
      let bytes' := bytes ++ [UInt8.ofNat (acc / 256), UInt8.ofNat acc]
      match rest with
      | [] => expandEllipsis bytes' ellipsis
      | [':'] => none
      | ':' :: ':' :: rest' =>
        if ellipsis ≠ none then none
        else if rest' = [] then expandEllipsis bytes' (some bytes'.length)
        else parseIPv6Loop fuel bytes' (some bytes'.length) rest'
      | ':' :: rest' => parseIPv6Loop fuel bytes' ellipsis rest'
      | _ => none

/-- `parseIPv6`; a zone is refused by `net.ParseIP`. -/
def parseIPv6 (s : List Char) : Option IP :=
  if '%' ∈ s then none
  else
    match s with
    | ':' :: ':' :: [] => some (List.replicate 16 0)
    | ':' :: ':' :: rest => parseIPv6Loop 8 [] (some 0) rest
    | _ => parseIPv6Loop 8 [] none s

/-- `net.ParseIP`: the first `.` or `:` of the text decides its form; the result has
sixteen bytes, `nil` for a text that is not an address. -/
def parseIP (s : String) : IP :=
  match s.toList.find? (fun c => c = '.' ∨ c = ':' ∨ c = '%') with
  | some '.' =>
    match parseIPv4 s.toList with
    | some v4 => v4InV6Prefix ++ v4
    | none => []
  | some ':' => (parseIPv6 s.toList).getD []
  | _ => []

example : to4 (parseIP "192.168.56.2") = [192, 168, 56, 2] := by decide
example : to4 (parseIP "fe80::8cee:d1ff:feb6:123d") = [] := by decide
example : to4 (parseIP "::ffff:10.0.0.1") = [10, 0, 0, 1] := by decide

end EProxy

/-! ASCII letter case. -/
namespace EntityStore.Text

/-- The characters of a text, ASCII capitals made small. -/
def folded (s : String) : List Char := s.toList.map Char.toLower

/-- Equality up to ASCII letter case. -/
def sameFolded (s t : String) : Bool := folded s == folded t

theorem sameFolded_iff {s t : String} : sameFolded s t = true ↔ folded s = folded t := by
  simp [sameFolded]

end EntityStore.Text

namespace MiningClient.Text

def spaces (n : Nat) : String := String.ofList (List.replicate n ' ')

def padRight (width : Nat) (s : String) : String := s ++ spaces (width - s.toList.length)

def padLeft (width : Nat) (s : String) : String := spaces (width - s.toList.length) ++ s

end MiningClient.Text

namespace ZkNote.StdText

-- `char::is_whitespace`.
def isWhitespace (c : Char) : Bool :=
  let v := c.toNat
  (0x09 ≤ v && v ≤ 0x0d) || v = 0x20 || v = 0x85 || v = 0xa0 || v = 0x1680 || (0x2000 ≤ v && v ≤ 0x200a) ||
    v = 0x2028 || v = 0x2029 || v = 0x202f || v = 0x205f || v = 0x3000

-- `char::is_control`.
def isControl (c : Char) : Bool := c.toNat ≤ 0x1f || (0x7f ≤ c.toNat && c.toNat ≤ 0x9f)

def trimBy (space : Char → Bool) (text : String) : String :=
  String.ofList (((text.toList.dropWhile space).reverse.dropWhile space).reverse)

def trim (text : String) : String := trimBy isWhitespace text

def startsWith (text start : String) : Bool := start.toList.isPrefixOf text.toList

end ZkNote.StdText

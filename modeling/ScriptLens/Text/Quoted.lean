import ScriptLens.Text.Basic
import ScriptLens.Text.Class

/-!
# Quoted text

Two ways of writing a text between quotes.  `Text.quoted` keeps every printable character and
prefers the quote that does not occur in the text; `Text.asciiQuoted` writes only ASCII.
-/

namespace ScriptLens.Text

/-- The code points that a quoted text writes as escapes. -/
def hidden : Ranges := .ofLines [
    "AbGdRbIMBbbMCGEHBBBUBpHBbMCbYCDBcDIbBEGRWBhKBbWCcHCdXOcHCbXCPBbCCBBLFbFJcWBgFBICCCWBHBBDECJC",
    "CCEIBECBFCZCDBGECCWBHBCBCBCCBBFECCDDBHEBBHRKDBJBDBWBHBCBFCKBDBDCBPECMHHBDBICCCWBHBCBFCJCCCDH",
    "DECBFCSKCBGDDBEDCBBBCDCDDDMEFDDBECBGBOVFNBDBXBQCJBDBEHCBDCBCECKHWBDBXBKBFCJBDBEHCGCBECKBCNNB",
    "DBbZBDBGEQCbABDBSDYBJBBCHDBEGBBBIGKCDMcGEbDbLCBBBFBYBBBXCFBBBGCKCEbGcUBbKEbNBbKBPBNbLhQBBFBC",
    "oNBECHBBBECbPBECbHBECHBBBECPBcFBECcPCbGDbAGdICGCyQBbCDdLHWJYJUMNBDBCMdQCKGKGOBLGdLHbRFcSKbFB",
    "MEMEBDbQCFLbSEbAGLDcKCcNBbDCLGKGOCbFbXcZDbVBeMIcIDPDcIHbRCLIbRFuOCGCbMCGCIBBBBBBBbFCcBBPBOCG",
    "BTCDBJRYIbVRCCbBBNDbHPbHPfKEzNZLVcrSCbGBnLFbTBBFBCcEHCOYJHBHBHBHBHBHBHBHBeWbIbABdLMiGbAMFcLB",
    "dICdZFbRBdQBdGMbVBbriRDcDJnKUhCIhVFCBBBFYcHDKGcEIcSIMGeMLbEDdABLEbHBcDJOCKCdZYbCKGCGCGJHBHBc",
    "IEeWCKGqnSMXEbXmnCoCCeCbMHMFFbABFBBBCBCBeVQrDCcCHBbGbQGbZBTBEEFBfFEhIDGCGCGCDDHBHNCCMBbABTBC",
    "BPCObIeTFDEbTDdKBNDBbVbUfAbDDbXPbCEbKJbEFbRFbEBbLEObQgCCKGbKEbKEbOIcALMBPBHBCBLBPBHBCcPlZJWK",
    "IYGBbQBJcRGCBBbSBCDBCXBcUIJbWTBCFbHDbBFBcMcEEUCbYBCFIBDBbDCDEKHJHcMbGbNEMJcCDbDCbBFbAHEMHdCc",
    "VcDbZNbZHbUIKlIbFBbQBDCCdAbOIbQWbAbMbCUXJdAEbKJcKBFNZHKGcBBSIbNJdSBULSBbScNHBBBEBPBLGcHFKGEB",
    "ICCCWBHBCBFBKCCCDCBGBFHCHDFfJdOBFbEcUIKgKcCCbMbIcRLKGNTcGGKcCbBCPEXhDcIdWdFMICBCIBCBbEBCCMJK",
    "cSICbUCLbBcUIdFNcVkDJBbTBOKbDDbGCWBOcVHBCBbSDBBCBJIKGGBCBbLBCBGHKlYZhBBPbYNbjNdYeHBFLhOdxKdV",
    "NbpFfzTwLmuBvXHbFBKEdDBKGbECGKcSKKBHBVFTbaMdNdXcXEcFHRcMFLCOjcAIbvQbQJnfREBHBCBlFbTDREIpGdkU",
    "eDFNDJHKCEgyYbUCXJeMcIjMKbNCcWIeIVcSfYUMdJJZfFdHBcTBCCBCCCEBMBBBHBcNBECIBHBbCBEBFBBDHBnCClGC",
    "bbAPFBPbqMbFiRHBRCHBCBFiFbTDOCKECmIbFRcGFBbwAHBEBCBPBhPCQbPcYEKECbeFcQcYcJhMEBbBBCBBCBBKBEBB",
    "BBGBEBBBBBBDBCBBCBBBBBBBBBBCBBCEBHBEBEBBBKBRFDBFBRcACkKbSEdWMPCPBPBbLKgScEbDNbSEJHCOGfYblWFQ",
    "DNDeMMdLHMEBPMEcEIKGbOIbECCdAnCMOCFDFDHJbDDLFGKKGIIHJfRBcDbLKbnQclfCbGgdTHiOCinQOlbLepJuWcfY",
    "hhZbotmRjGlecU"]

def isPrintable (c : Nat) : Bool := !hidden.contains c

def hexDigit (n : Nat) : Nat := if n < 10 then 48 + n else 87 + n

def hexDigits (n : Nat) : Nat → List Nat
  | 0 => []
  | width + 1 => hexDigits (n / 16) width ++ [hexDigit (n % 16)]

def quotedPoint (quote c : Nat) : List Nat :=
  if c == quote || c == 92 then [92, c]
  else if c == 10 then [92, 'n'.toNat]
  else if c == 13 then [92, 'r'.toNat]
  else if c == 9 then [92, 't'.toNat]
  else if isPrintable c then [c]
  else if c < 256 then 92 :: 'x'.toNat :: hexDigits c 2
  else if c < 65536 then 92 :: 'u'.toNat :: hexDigits c 4
  else 92 :: 'U'.toNat :: hexDigits c 8

/-- The text between quotes: single ones, unless it holds a single quote and no double one. -/
def quoted (t : Text) : Text :=
  let quote := if t.contains 39 && !t.contains 34 then 34 else 39
  ofList (quote :: (t.toList.flatMap (quotedPoint quote) ++ [quote]))

/-- How `asciiQuoted` writes a code point; one beyond 65535 takes two escapes. -/
def asciiPoint (c : Nat) : List Nat :=
  if c == 34 || c == 92 then [92, c]
  else if c == 10 then [92, 'n'.toNat]
  else if c == 13 then [92, 'r'.toNat]
  else if c == 9 then [92, 't'.toNat]
  else if c == 8 then [92, 'b'.toNat]
  else if c == 12 then [92, 'f'.toNat]
  else if 32 ≤ c && c < 127 then [c]
  else if c < 65536 then 92 :: 'u'.toNat :: hexDigits c 4
  else
    let d := c - 65536
    (92 :: 'u'.toNat :: hexDigits (0xD800 + d / 1024) 4)
      ++ (92 :: 'u'.toNat :: hexDigits (0xDC00 + d % 1024) 4)

def asciiQuoted (t : Text) : Text := ofList (34 :: (t.toList.flatMap asciiPoint ++ [34]))

end ScriptLens.Text

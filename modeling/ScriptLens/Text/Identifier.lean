import ScriptLens.Text.Class

/-!
# Characters of identifiers

An identifier starts with a letter or letter number, `$`, `_` or a backslash that opens an
escape; inside it marks, digits, connectors and the two joiners may follow as well.
-/

namespace ScriptLens.Text

/-- Letters, letter numbers and the other code points that may start an identifier. -/
def letters : Ranges := .ofLines [
    "bKBbCbABBCBBbAbVBKBEBFXBbFBrQEMOFHBBBeZFBCCEBBGBBDBBBUBdFBfJIgKBbMCBGbPcTbBEEbTbRbJCBdVBBPCH",
    "CKDCBQBBbEbDdLLBYbHJCEBFWEBJBDBXZHLFYBGRbQcGcCDBSBHKPQEICCCWBHBBDEDBQBNCBDOCKBIGECCWBHBCBCBC",
    "bFEBBTDQJBDBWBHBCBFDBSBPCXBLICCCWBHBCBFDBbECBDPBRBBGDDBEDCBBBCDCDDDMWBcAIBDBXBQDBbADCBCCbEBE",
    "IBDBXBKBFDBbFCBCPCRJBDBbPCBQBFDIDYGFSDYBJBBCHcGbWBCMHcGCBBBFBYBBBKBCJBCFBBVEbGBcLIBbKbBFeLbR",
    "UBQGEEDBDCHDENMBRbMBBFBCbRBmVBECHBBBECbPBECbHBECHBBBECPBcFBECcPbLQQdICGDxWCRBbAFcXDLHSNTOSON",
    "BDPcAbJBEBcPdLHbPBBFcSKbFbXbECFLbSEbAcCXJcBdEBdPbVRIcCbENCKbSbAbKbPDKbKCJHbRCDbPEBGBCDBFhKcM",
    "kSCGCbMCGCIBBBBBBBbFCcBBHBBDDBHDECGENFDBHeMBNBQNdXBEBCKBBCGGBBBBBBQCEFFEBRbPdzBiVGEDCMbMBBFB",
    "CcEHBQXJHBHBHBHBHBHBHBHdCBsBDZJHFCFEdIEFBdMBEFbRBdQRbGbWQtSjtOcMbguFcPbUCkJDQKCUbVQbFCdCbNJC",
    "dZCcMFCBBBFYQBDBEBXbDcAObYcKGDBBCLbCKXZbDHbVbCBQFBKKFBbPXDBIUXDBDbYBBDCCFCBBBYDCLHDMGCGCGJHB",
    "HBbRBOGeLbDqnSMXEbXmnCoCCeCbMHMFFBBKBNBFBBBCBCBeEbHnZScMCcCbOMeMFBfFbKbAGbALdLDGCGCGCDbJMBbA",
    "BTBCBPCObIeTcRcBkHbDDbXbVbGNbEFbMKbECbKEIBFbQgCSbKEbKEbOIcAMLBPBHBCBLBPBHBCcPlZJWKIYGBbQBJcR",
    "GCBBbSBCDBCXKXJbFcNTBCKWKbAcScEGCcMBPEBDBbDbQbDDbDbJIBbCbBcCKWKTNSeGcVcDbZNbZNbKnKbQGCdAbDKB",
    "IWbQSbUVbBXMcBcFCCBNbTbGZbAbKbDBCBIbJDBMbWOEVBBBbJSBZdGHBBBEBPBKHbVbMICCCWBHBCBFDBSBMFgCcBSE",
    "UDbEbWUCBBhCbVbPEbKbWUBcHbRNBcTbBbLHhDbSeMcMbFICBCIBCBYPBBBdQICbNQBBBbCBKbOHBVBLbUTBScVkDJBb",
    "LRBbXbEeIHBCBbMVBZGBCBbGOBmPThHBdBbjMdYeHRhOdxKdTPbpFfzTwLmuBvXHbFRdBRbESbWQEbFVFTbaMcMeYcXF",
    "BcONcMCBBbCjcAIbvQbQJnfREBHBCBlFbTDREIpGdkUeDFNDJHKiwKdHBcTBCCBCCCEBMBBBHBcNBECIBHBbCBEBFBBD",
    "HBnCCZBZBbFBZBbFBZBbFBZBbFBZBIcsYbFsNbTKHQBmJbESbSbwUHBEBCBPBhPcHcQHBbuIEBbBBCBBCBBKBEBBBBGB",
    "EBBBBBBDBCBBCBBBBBBBBBBCBBCEBHBEBEBBBKBRFDBFBRgoAclfCbGgdTHiOCinQOlbLepJuWcfYhhZ"]

/-- Marks, decimal digits, connectors and joiners: what may follow inside an identifier only. -/
def continuations : Ranges := .ofLines [
    "bWKeVBwMeIXBjRFkFbTBBBCBCBBcULbWbFGBdXHCGCCBECKXBbEbBdNLPKbHJJBYEBJBDBFbRDcIIbQYBbHcCDBSBHKC",
    "CKRDcEBBHCCCDJBKCCKOBCDcEBBFECCDDBUMDBLDcEBBIBDBDUCCKKGBDcEBBHCCCDHDKCCKSBcHFDDBEJBOKQFcDBBH",
    "BDBEHCLCCKRDcEBBHBDBEHCLCCKQEcDCBHBDBEJBKCCKRDcSBEGBBBIGKCCcJBCHMIBKdJBCJLGCKcKCGKLBBBBBECbX",
    "UBCFLBbKJBdWUBKMEEDBDCHDENMBPbbBDJJbjSEbCDbDCbECcMbGJBCKbHDBLfNBeOMEMKKeYLcIFcFKBbDCLGKWOBQb",
    "XFbVRLKRJMDbENCKbSObWUIKGKeODBVEBGBCDhQcMuECbXCTBeTNEBDMeoCDfLBdSbGvIGeBCbsnDKcRBEKbGCdCCkMB",
    "DBEBXFEBdFCbYSKKGSNLbCIZNbSEbVOPKLBKKbVOMBICCKbHDbYBBDCCFCBBbPFFCjCIBCCKbdzGBbcJQQQDCYDhKKbL",
    "BbaZBiSBfTFlHKcaPDBCFEbODEBgJCwBEIKoFCfXLbXEeSDcBPbFLCCKEbTLHBbTKGDbKOBKFCbSBMDbWOIEBMdEMGBg",
    "EMFKGEcDCBHCCCDJBKCCHDFhKSJKEBdDUMKiFHCJbBCdERPKdDNIKdFPEKjIPgJKcSGBCCEBBBCMKePHCHDBbCKbOHBE",
    "IBJLbUQpPIBIQKcEWBOeSGDBBCBHBBIKbWFBCBFIKmREbcoNKdIKbMFcHHZKbmZBBcDHEdDBLCbdaXCgyZbUCXuWFDGI",
    "ICHbEEfSDccNbYtScDEbYIBOBWFBPcaIHBRCHBCBFkBHJKnSBcJOcfMHeFHFKhbAKbsvgWjG"]

def isIdentifierStart (c : Nat) : Bool :=
  if c < 128 then
    (97 ≤ c && c ≤ 122) || (65 ≤ c && c ≤ 90) || c == 36 || c == 95 || c == 92
  else letters.contains c

def isIdentifierPart (c : Nat) : Bool :=
  isIdentifierStart c || (if c < 128 then 48 ≤ c && c ≤ 57 else continuations.contains c)

def decimalDigits : Ranges := .ofLines [
    "bWKciOKfEKhQKpWKeOKeOKeOKeOKeOKeOKeOKeOKeOKdSKeOKcSKkSKcSKctQKbMKlOKeYKgKKGKhAKdIKfEKGKcaeOK",
    "baCKbMKhQKWKdIKpQKbfmCKccKKdfYKbfGKeYKcIKfOKkSKnEKeOKoKKdYKdYKqGKdYKbdEKjMKcSKbdbIKdIKfEKbpb",
    "WbYdnCKqGKckKKhbAK"]

def blanks : Ranges := ⟨[
    9, 5, 14, 5, 100, 1, 26, 1, 5599, 1, 2431, 11, 29, 2, 5, 1, 47, 1, 4000, 1]⟩

/-- Numbers that are not decimal digits, and a few letters that start no identifier. -/
def otherNumbers : Ranges := .ofLines [
    "gWCFBCDdmRGoMGeQDfDHiJHRJqRKbpLUbrVKsMBcmVBDGGKhQQbPBbbYcIdAWyGbEcbHBbtCEfIKbEIBPbGKbNPbsmIG",
    "bhqNbTcNERCnDbBbKEbzGIZHbNJcXFWGgECCQCbUcMJcACbEDcXFeAIYIbPHmSGnObFgCKbQEeIHfEUoPUbzXCqOJbhN",
    "TbgTVbcpQHbeSXblzLUeEZibUJbjTcHBDBEcYbTBPblAN"]

def startMarks : Ranges := ⟨[
    36, 1, 55, 1, 6184, 2, 2193, 1, 21, 1, 3948, 2]⟩

def isWordCharacter (c : Nat) : Bool :=
  (letters.contains c && !startMarks.contains c) || decimalDigits.contains c || otherNumbers.contains c

end ScriptLens.Text

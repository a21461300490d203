import CodeAtlas.Alias.Basic
import CodeAtlas.Cache.Sha256
import CodeAtlas.Json.Literal

/-!
# Fingerprints of inputs

A digest over files, aliases and options by which results are kept. The order of files and options
does not matter.
-/

namespace CodeAtlas.Fingerprint

def utf8 (s : String) : List UInt8 :=
  s.toUTF8.toList

def byName {α : Type} (entries : List (String × α)) : List (String × α) :=
  entries.mergeSort fun a b => decide (a.1 ≤ b.1)

def filePart (hash : List UInt8 → List UInt8) (file : String × String) : List UInt8 :=
  utf8 file.1 ++ 0 :: hash (utf8 file.2)

def aliasPart (a : Alias) : List UInt8 :=
  utf8 ("alias:" ++ a.lead ++ "*" ++ a.trail ++ "=" ++ "|".intercalate a.targets)

def optionPart (option : String × Json) : List UInt8 :=
  utf8 ("opt:" ++ option.1 ++ "=" ++ option.2.literal)

def message (hash : List UInt8 → List UInt8) (files : List (String × String))
    (aliases : List Alias) (options : List (String × Json)) : List UInt8 :=
  (byName files).flatMap (filePart hash) ++ aliases.flatMap aliasPart
    ++ (byName options).flatMap optionPart

def hex (bytes : List UInt8) : String :=
  String.ofList (bytes.flatMap fun b =>
    [Json.hexDigit (b.toNat / 16), Json.hexDigit (b.toNat % 16)])

def fingerprintBy (hash : List UInt8 → List UInt8) (files : List (String × String))
    (aliases : List Alias) (options : List (String × Json)) : String :=
  hex (hash (message hash files aliases options))

/-- There is none where an integer of an option is too long to be written. -/
def fingerprint (maxDigits : Option Nat) (files : List (String × String)) (aliases : List Alias)
    (options : List (String × Json)) : Except Json.WriteError String :=
  if ∀ option ∈ options, Json.Admits maxDigits option.2.width then
    .ok (fingerprintBy Sha256.hash files aliases options)
  else .error .tooLong

end CodeAtlas.Fingerprint

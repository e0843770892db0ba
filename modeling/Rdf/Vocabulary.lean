import Rdf.Term.Basic

/-!
The well-known IRIs, and the datatypes with a special role.
-/

namespace Rdf.Vocabulary

/-- IRI of the RDF vocabulary. -/
def rdf (name : String) : Iri := ⟨"http://www.w3.org/1999/02/22-rdf-syntax-ns#" ++ name⟩

/-- IRI of an XML Schema datatype. -/
def xsd (name : String) : Iri := ⟨"http://www.w3.org/2001/XMLSchema#" ++ name⟩

/-- Datatype of texts in a language. -/
def langString : Iri := rdf "langString"

/-- Datatype of plain literals. -/
def string : Iri := xsd "string"

def boolean : Iri := xsd "boolean"

def integer : Iri := xsd "integer"

def decimal : Iri := xsd "decimal"

def float : Iri := xsd "float"

def double : Iri := xsd "double"

def date : Iri := xsd "date"

def time : Iri := xsd "time"

def dateTime : Iri := xsd "dateTime"

/-- Integer datatypes without a width. -/
def unboundedIntegers : List Iri :=
  ["integer", "unsignedLong", "nonNegativeInteger", "positiveInteger"].map xsd

/-- Integer datatypes that are read as 64-bit integers. -/
def fixedWidthIntegers : List Iri :=
  ["byte", "short", "int", "long", "unsignedInt", "unsignedShort", "unsignedByte"].map xsd

/-- Datatypes of dates and times. -/
def temporals : List Iri := [date, time, dateTime]

/-- All well-known IRIs. -/
def wellKnown : List Iri :=
  ["langString", "PlainLiteral", "type", "XMLLiteral"].map rdf
    ++ ["anyURI", "boolean", "byte", "date", "dateTime", "decimal", "double", "duration", "float",
      "int", "integer", "language", "long", "negativeInteger", "nonNegativeInteger",
      "nonPositiveInteger", "normalizedString", "positiveInteger", "short", "string", "time",
      "token", "unsignedByte", "unsignedInt", "unsignedLong", "unsignedShort"].map xsd

/-- The well-known IRI with this text. -/
def lookup (text : String) : Option Iri := wellKnown.find? (·.text = text)

end Rdf.Vocabulary

namespace Rdf

/-- Whether the IRI is a well-known one. -/
def Iri.isWellKnown (i : Iri) : Bool := (Vocabulary.lookup i.text).isSome

end Rdf

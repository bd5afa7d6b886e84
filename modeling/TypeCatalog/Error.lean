import TypeCatalog.RowId
import TypeCatalog.Path
import TypeCatalog.Span

namespace TypeCatalog

/-- Why the database refuses to open, to store or to give a value. Columns are named with their
table. -/
inductive DatabaseError where
  | notADatabase
  | cannotOpen (path : String)
  | address (reason : String)
  | denied (reason : String)
  | readOnly
  | primaryKey (columns : String)
  | unique (columns : String)
  | foreignKey
  | notNull (column : String)
  | mismatch
  | wrongType (found : String) (index : Nat) (column : String)
  | outOfRange (value : Int) (index : Nat)
  deriving DecidableEq, Repr

namespace DatabaseError

def message : DatabaseError → String
  | notADatabase => "file is not a database"
  | cannotOpen path => "unable to open database file: " ++ path
  | address reason | denied reason => reason
  | readOnly => "attempt to write a readonly database"
  | primaryKey columns | unique columns => "UNIQUE constraint failed: " ++ columns
  | foreignKey => "FOREIGN KEY constraint failed"
  | notNull column => "NOT NULL constraint failed: " ++ column
  | mismatch => "datatype mismatch"
  | wrongType found index column =>
    "Invalid column type " ++ found ++ " at index: " ++ toString index ++ ", name: " ++ column
  | outOfRange value index => "Integer " ++ toString value ++ " out of range at index " ++ toString index

/-- The number and the text of the engine's own error behind it, if there is one. -/
def engine? : DatabaseError → Option String
  | notADatabase => some "Error code 26: File opened that is not a database file"
  | cannotOpen _ => some "Error code 14: Unable to open the database file"
  | address _ => some "Error code 1: SQL logic error"
  | denied _ => some "Error code 3: Access permission denied"
  | readOnly => some "Error code 8: Attempt to write a readonly database"
  | primaryKey _ => some "Error code 1555: A PRIMARY KEY constraint failed"
  | unique _ => some "Error code 2067: A UNIQUE constraint failed"
  | foreignKey => some "Error code 787: Foreign key constraint failed"
  | notNull _ => some "Error code 1299: A NOT NULL constraint failed"
  | mismatch => some "Error code 20: Data type mismatch"
  | wrongType _ _ _ | outOfRange _ _ => none

end DatabaseError

/-- What went wrong in the catalog or its store. `exhausted` ends the session. -/
inductive CatalogError where
  | database (e : DatabaseError)
  | io (detail : String)
  | missingNamespace (name : String)
  | missingNamespaceId (id : NamespaceId)
  | missingSourceFile (path : Path)
  | missingSourceFileId (id : FileId)
  | missingNamedType (id : TypeId)
  | notDocumented (id : TypeId)
  | parametersUnavailable (typeName : String)
  | invalidColumn (column value : String)
  | corrupted (reason : String)
  | exhausted (cause : Exhausted)
  deriving DecidableEq, Repr

namespace CatalogError

def message : CatalogError → String
  | database e => "SQLite error: " ++ e.message
  | io detail => "IO error: " ++ detail
  | missingNamespace name => "Namespace '" ++ name ++ "' is not catalogued"
  | missingNamespaceId id => "Namespace " ++ id.text ++ " is not catalogued"
  | missingSourceFile path => "Source file '" ++ path.text ++ "' is not catalogued"
  | missingSourceFileId id => "Source file " ++ id.text ++ " is not catalogued"
  | missingNamedType id => "Named type " ++ id.text ++ " is not catalogued"
  | notDocumented id => "Named type " ++ id.text ++ " is not a documented type"
  | parametersUnavailable name =>
    "Type parameters of '" ++ name ++ "' are not loaded and no store is attached"
  | invalidColumn column value => "Invalid value '" ++ value ++ "' in column " ++ column
  | corrupted reason => "Catalog appears to be corrupted: " ++ reason
  | exhausted cause => cause.message

/-- What caused the error, each cause after the one that it explains. -/
def causes : CatalogError → List String
  | database e => e.message :: e.engine?.toList
  | io detail => [detail]
  | _ => []

/-- Whether the error says that something should have been catalogued earlier. -/
def isMissingPrerequisite : CatalogError → Bool
  | missingNamespace _ | missingNamespaceId _ | missingSourceFile _ | missingSourceFileId _
  | missingNamedType _ | notDocumented _ | parametersUnavailable _ => true
  | database _ | io _ | invalidColumn _ _ | corrupted _ | exhausted _ => false

end CatalogError

inductive ParseError where
  | parserInit (language reason : String)
  | noTree (path : Path)
  deriving DecidableEq, Repr

def ParseError.message : ParseError → String
  | .parserInit language reason => "Failed to initialize " ++ language ++ " parser: " ++ reason
  | .noTree path => "Parser produced no syntax tree for '" ++ path.text ++ "'"

/-- Why a syntax node has no type descriptor. -/
inductive AnalyzeError where
  | unsupportedNode (kind : String) (span : Span)
  | tooDeep (span : Span) (limit : Nat)
  | missingSourceFile (path : Path)
  | notDocumented (id : TypeId)
  | uncataloguedType (fullName : String)
  | nameResolution (text : String) (span : Span) (reason : String)
  | catalog (e : CatalogError)
  deriving DecidableEq, Repr

namespace AnalyzeError

def message : AnalyzeError → String
  | unsupportedNode kind span => "Unsupported type syntax '" ++ kind ++ "' at " ++ span.text
  | tooDeep span limit =>
    "Type syntax at " ++ span.text ++ " is nested deeper than " ++ toString limit ++ " levels"
  | missingSourceFile path => "Source file '" ++ path.text ++ "' is not catalogued"
  | notDocumented id => "Named type " ++ id.text ++ " is not a documented type"
  | uncataloguedType name => "Enclosing type '" ++ name ++ "' is not catalogued"
  | nameResolution text span reason =>
    "Cannot qualify type name '" ++ text ++ "' at " ++ span.text ++ ": " ++ reason
  | catalog e => e.message

def code : AnalyzeError → String
  | unsupportedNode _ _ => "UNSUPPORTED_NODE"
  | tooDeep _ _ => "TYPE_TOO_DEEP"
  | missingSourceFile _ => "MISSING_SOURCE_FILE"
  | notDocumented _ => "NOT_DOCUMENTED"
  | uncataloguedType _ => "UNCATALOGUED_TYPE"
  | nameResolution _ _ _ => "NAME_RESOLUTION_FAILED"
  | catalog _ => "CATALOG_ERROR"

end AnalyzeError

/-- Why a descriptor has no reference tree. -/
inductive ResolveError where
  | invalidAnalysis (reason : String)
  | unresolved (name : String)
  | resolverOrder (members : String)
  | catalog (e : CatalogError)
  deriving DecidableEq, Repr

namespace ResolveError

def message : ResolveError → String
  | invalidAnalysis reason => "Type analysis is not valid for resolution: " ++ reason
  | unresolved name => "No resolver matched type '" ++ name ++ "'"
  | resolverOrder members => "Resolver ordering contains a cycle through " ++ members
  | catalog e => e.message

def code : ResolveError → String
  | invalidAnalysis _ => "INVALID_ANALYSIS"
  | unresolved _ => "UNRESOLVED_TYPE"
  | resolverOrder _ => "RESOLVER_ORDER"
  | catalog _ => "CATALOG_ERROR"

end ResolveError

inductive ScanError where
  | fileRead (path : Path) (reason : String)
  | parse (e : ParseError)
  | analyze (e : AnalyzeError)
  | resolve (e : ResolveError)
  | catalog (e : CatalogError)
  | config (reason : String)
  deriving DecidableEq, Repr

namespace ScanError

def message : ScanError → String
  | fileRead path reason => "Failed to read file '" ++ path.text ++ "': " ++ reason
  | parse e => e.message
  | analyze e => e.message
  | resolve e => e.message
  | catalog e => e.message
  | config reason => "Invalid configuration: " ++ reason

def code : ScanError → String
  | fileRead _ _ => "FILE_READ_ERROR"
  | parse _ => "PARSE_ERROR"
  | analyze e => e.code
  | resolve e => e.code
  | catalog _ => "CATALOG_ERROR"
  | config _ => "CONFIG_ERROR"

/-- The catalog error inside, at whatever stage it arose. -/
def catalog? : ScanError → Option CatalogError
  | catalog e | analyze (.catalog e) | resolve (.catalog e) => some e
  | _ => none

/-- What caused the error, each cause after the one that it explains. -/
def causes : ScanError → List String
  | fileRead _ reason => [reason]
  | e => (e.catalog?.map CatalogError.causes).getD []

/-- Whether a scan may go on to the next usage. A storage failure or a wrong configuration ends it; a
row that is missing only affects the usage that needed it. -/
def isRecoverable : ScanError → Bool
  | config _ => false
  | e => e.catalog?.all (·.isMissingPrerequisite)

def suggestions : ScanError → List String
  | fileRead _ _ =>
    ["Check that the file exists and you have read permissions",
      "Ensure the file is not locked by another process"]
  | catalog e =>
    if e.isMissingPrerequisite then
      ["Run 'sharpdoc scan --force' so declarations are catalogued before references"]
    else
      ["Run 'sharpdoc scan --force' to rebuild the catalog from scratch",
        "Check disk space and permissions for the catalog directory"]
  | resolve (.unresolved _) =>
    ["Enable 'resolution.allow_create' to catalogue unseen external types"]
  | config _ => ["Run 'sharpdoc init --force' to regenerate settings"]
  | _ => []

end ScanError

end TypeCatalog

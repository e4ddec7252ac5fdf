import ClassSplit.Settings.Basic

/-!
The schema of settings files.
-/

namespace ClassSplit.Settings

def reference (name : String) : Datum :=
  .array [.object [("$ref", .string ("#/definitions/" ++ name))]]

def optionalString (description : String) : Datum :=
  .object
    [("default", .null), ("description", .string description),
      ("type", .ofStrings ["string", "null"])]

/-- A natural number with a least value. -/
def naturalNumber (standard : Nat) (least : String) (description : Option String) : Datum :=
  .object
    ([("default", .ofNat standard)]
      ++ (description.map fun text => ("description", .string text)).toList
      ++ [("format", .string "uint"), ("minimum", .float least), ("type", .string "integer")])

def styleSchema : Datum :=
  .object
    [("enum", .ofStrings (IndentStyle.variants.map Prod.fst)), ("type", .string "string")]

def loggingSchema : Datum :=
  .object
    [("additionalProperties", .bool false),
      ("properties",
        .object
          [("json",
              .object
                [("default", .bool false), ("description", .string "Emit logs as JSON lines."),
                  ("type", .string "boolean")]),
            ("level",
              .object
                [("default", .string "warn"),
                  ("description",
                    .string
                      "A level (`info`, `debug`, ...) or a full `EnvFilter` directive string."),
                  ("type", .string "string")])]),
      ("type", .string "object")]

def entrySchemas : List (String × Datum) :=
  [("file_extension",
      optionalString
        "Extension of the generated file. Defaults to the original file's extension."),
    ("helper_field_name",
      optionalString
        ("Name of the field holding the new class instance. Defaults to the new class name in "
          ++ "lower camel case.")),
    ("indent_style",
      .object [("allOf", reference "IndentStyle"), ("default", .string IndentStyle.spaces.label)]),
    ("indent_width", naturalNumber 4 "0.0" none),
    ("logging",
      .object
        [("allOf", reference "LoggingConfig"),
          ("default", .object [("json", .bool false), ("level", .string "warn")])]),
    ("max_repair_iterations",
      naturalNumber defaultRepairRounds "1.0"
        (some "Upper bound on auto-repair passes before a candidate set is rejected."))]

/-- The schema of a whole file. -/
def schema : Datum :=
  .object
    [("$schema", .string "http://json-schema.org/draft-07/schema#"),
      ("title", .string "ExtractClassConfig"), ("type", .string "object"),
      ("properties", .object entrySchemas), ("additionalProperties", .bool false),
      ("definitions",
        .object [("IndentStyle", styleSchema), ("LoggingConfig", loggingSchema)])]

end ClassSplit.Settings

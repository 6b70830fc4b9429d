import FormEdits.Text.Basic

/-! # Help on the command

What the command says about itself, laid out for lines of eighty characters. -/

namespace FormEdits

namespace Command

def helpLines : List String :=
  ["usage: rdfkv [-h] [--form FORM] [--subject SUBJECT] [--graph GRAPH]",
    "             [--prefix NAME=URI] [--config CONFIG]",
    "             [--format \x7bsparql,json,nquads\x7d] [--log-level LOG_LEVEL]",
    "             [--version]",
    "             [input]",
    "",
    "rdfkv - turn form key/value pairs into RDF graph edits",
    "",
    "positional arguments:",
    "  input                 JSON file holding an object of key to value or list of",
    "                        values ('-' for stdin)",
    "",
    "options:",
    "  -h, --help            show this help message and exit",
    "  --form FORM           URL-encoded form body to process instead of a JSON",
    "                        input",
    "  --subject SUBJECT, -s SUBJECT",
    "                        Default subject URI (overrides RDFKV_SUBJECT and the",
    "                        config file)",
    "  --graph GRAPH, -g GRAPH",
    "                        Default graph URI (overrides RDFKV_GRAPH and the",
    "                        config file)",
    "  --prefix NAME=URI, -P NAME=URI",
    "                        Register a namespace prefix; may be repeated",
    "  --config CONFIG, -c CONFIG",
    "                        Path to a YAML configuration file",
    "  --format \x7bsparql,json,nquads\x7d, -f \x7bsparql,json,nquads\x7d",
    "                        Output format; nquads prints the inserts only.",
    "                        Default: sparql",
    "  --log-level LOG_LEVEL",
    "                        Logging level (overrides RDFKV_LOG_LEVEL and the",
    "                        config file)",
    "  --version             show program's version number and exit",
    "",
    "Examples:",
    "  rdfkv --subject https://example.org/doc form.json",
    "  echo '\x7b\"dct:title\": \"Hi!\"\x7d' | rdfkv -s https://example.org/doc -P dct=http://purl.org/dc/terms/",
    "  rdfkv -s https://example.org/doc --form 'dct%3Atitle=Hi&%3D+dct%3Adescription=' --format json",
    "        "]

def help : Text := helpLines.flatMap fun l => l.toList ++ ['\n']

end Command

end FormEdits

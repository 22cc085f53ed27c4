import SyntaxTrees.Config.File
import SyntaxTrees.Json.Native
import SyntaxTrees.Parsing.Batch
import SyntaxTrees.Parsing.Session
import SyntaxTrees.Proofs.Config.File
import SyntaxTrees.Proofs.Grammar.Kind
import SyntaxTrees.Proofs.Json.Delimited
import SyntaxTrees.Proofs.Json.Dump
import SyntaxTrees.Proofs.Json.DumpDocument
import SyntaxTrees.Proofs.Json.Record
import SyntaxTrees.Proofs.Json.Variant
import SyntaxTrees.Proofs.Parsing.Batch
import SyntaxTrees.Proofs.Parsing.Session
import SyntaxTrees.Proofs.Registry.Configuration
import SyntaxTrees.Proofs.Registry.Handles
import SyntaxTrees.Proofs.Registry.Keys
import SyntaxTrees.Proofs.Registry.Loading
import SyntaxTrees.Proofs.Registry.Spelling
import SyntaxTrees.Proofs.Source.Edit
import SyntaxTrees.Proofs.Source.Rows
import SyntaxTrees.Proofs.Source.Splice
import SyntaxTrees.Proofs.Tree.Boundary
import SyntaxTrees.Proofs.Tree.Comparison
import SyntaxTrees.Proofs.Tree.Covering
import SyntaxTrees.Proofs.Tree.Dump
import SyntaxTrees.Proofs.Tree.Errors
import SyntaxTrees.Proofs.Tree.Forest
import SyntaxTrees.Proofs.Tree.Placement
import SyntaxTrees.Proofs.Tree.Preorder
import SyntaxTrees.Proofs.Tree.SExpr
import SyntaxTrees.Proofs.Tree.Skeleton
import SyntaxTrees.Proofs.Tree.SourceOrder
import SyntaxTrees.Proofs.Tree.Traversal
import SyntaxTrees.Registry
import SyntaxTrees.Yaml.Native

import SgxUtils.Elf.File
import SgxUtils.Lib.Scan
import SgxUtils.Io.Copy
import SgxUtils.Elf2Sgxs.Arith
import SgxUtils.Elf2Sgxs.Symbols
import SgxUtils.Elf2Sgxs.Dynamic
import SgxUtils.Elf2Sgxs.Relocs
import SgxUtils.Elf2Sgxs.Layout
import SgxUtils.Elf2Sgxs.Splice
import SgxUtils.Elf2Sgxs.Segments
import SgxUtils.Elf2Sgxs.Writer
import SgxUtils.Elf2Sgxs.Image
import SgxUtils.Elf2Sgxs.Write
import SgxUtils.Elf2Sgxs.Pages
import SgxUtils.Elf2Sgxs.Startup
import SgxUtils.Io.Transfer
